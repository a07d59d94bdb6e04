import GoQuorum.Cluster.Gossip
import GoQuorum.Lib.Runs

/-!
# Gossip over time

The nodes of a cluster with their clocks.  A node merges incoming maps, marks peers and sets its own
status, in any order; a clock never goes back, but two clocks may differ by any amount.

`Merge` compares times, `MarkPeer` does not.  As long as the local clock is not behind the entry that
`MarkPeer` replaces, the times of the entries never decrease, and what has been replaced does not
come back (`superseded_gossip_stays_away`).
-/

namespace GoQuorum

open Lib

/-- The gossip state and the clock of every node, in Unix seconds. -/
structure GossipSystem where
  nodes : NodeID → Gossip
  clock : NodeID → ℤ

inductive GossipEvent where
  | merge (n : NodeID) (incoming : GossipState)
  | markPeer (n nodeID : NodeID) (status : NodeStatus)
  | setSelf (n : NodeID) (status : NodeStatus)
  | tick (n : NodeID) (now : ℤ)

namespace GossipSystem

/-- Every node has just been created. -/
def init (clock : NodeID → ℤ) (selfAddr : NodeID → Bytes)
    (membership : NodeID → Option MembershipManager) : GossipSystem where
  nodes := fun n => .new (clock n) n (selfAddr n) (membership n)
  clock := clock

/-- Change the state of a node. -/
def setNode (s : GossipSystem) (n : NodeID) (g : Gossip) : GossipSystem :=
  { s with nodes := Function.update s.nodes n g }

def step (s : GossipSystem) : GossipEvent → Option GossipSystem
  | .merge n incoming => some (s.setNode n ((s.nodes n).merge incoming))
  | .markPeer n nodeID status => some (s.setNode n ((s.nodes n).markPeer (s.clock n) nodeID status))
  | .setSelf n status => some (s.setNode n ((s.nodes n).setSelf (s.clock n) status))
  | .tick n now =>
    if s.clock n ≤ now then some { s with clock := Function.update s.clock n now } else none

/-- The entry that a node has for an id. -/
def entry (s : GossipSystem) (n id : NodeID) : Option NodeEntry := (s.nodes n).state.get? id

/-- The clock of the node is not behind the entry that `MarkPeer` replaces. -/
def marksForward (s : GossipSystem) : GossipEvent → Bool
  | .markPeer n nodeID _ => (s.entry n nodeID).all fun e => e.updatedAt ≤ s.clock n
  | _ => true

/-! ## What a step does to an entry -/

/-- One entry is as new as another, if there is one. -/
def AsNew (old new : Option NodeEntry) : Prop :=
  ∀ e, old = some e → ∃ e', new = some e' ∧ e.updatedAt ≤ e'.updatedAt

theorem AsNew.refl (o : Option NodeEntry) : AsNew o o := fun e he => ⟨e, he, le_rfl⟩

theorem AsNew.trans {a b c : Option NodeEntry} (hab : AsNew a b) (hbc : AsNew b c) : AsNew a c := by
  intro e he
  obtain ⟨e', he', hle⟩ := hab e he
  obtain ⟨e'', he'', hle'⟩ := hbc e' he'
  exact ⟨e'', he'', hle.trans hle'⟩

/-- A merge never makes an entry older. -/
theorem asNew_merge (g : Gossip) (incoming : GossipState) (id : NodeID) :
    AsNew (g.state.get? id) ((g.merge incoming).state.get? id) := by
  have hview := congrArg Prod.fst (g.view_merge incoming id)
  change (g.merge incoming).state.get? id = _ at hview
  rw [hview]
  split_ifs
  · exact AsNew.refl _
  · cases incoming.get? id with
    | none => exact AsNew.refl _
    | some e =>
      rw [Option.elim_some, Gossip.acceptView]
      split_ifs with hnew
      · exact fun e' he' => ⟨e, rfl, le_of_lt (hnew e' he')⟩
      · exact AsNew.refl _

theorem get?_markPeer (now : ℤ) (g : Gossip) (nodeID id : NodeID) (status : NodeStatus) :
    (nodeID ≠ id ∧ (g.markPeer now nodeID status).state.get? id = g.state.get? id) ∨
      (nodeID = id ∧ ∃ e, (g.markPeer now nodeID status).state.get? id = some e ∧
        e.updatedAt = now) := by
  rw [Gossip.markPeer, SortedMap.get?_insert]
  split_ifs with h
  · exact Or.inr ⟨h, _, rfl, rfl⟩
  · exact Or.inl ⟨h, rfl⟩

theorem get?_setSelf (now : ℤ) (g : Gossip) (id : NodeID) (status : NodeStatus) :
    (g.nodeID ≠ id ∧ (g.setSelf now status).state.get? id = g.state.get? id) ∨
      (g.nodeID = id ∧ ∃ e, (g.setSelf now status).state.get? id = some e ∧ e.updatedAt = now) := by
  rw [Gossip.setSelf, SortedMap.get?_insert]
  split_ifs with h
  · exact Or.inr ⟨h, _, rfl, rfl⟩
  · exact Or.inl ⟨h, rfl⟩

/-- The invariant of the runs: nodes keep their ids, and a node's own entry is not ahead of its
clock. -/
def OwnEntryBehind (s : GossipSystem) : Prop :=
  ∀ n, (s.nodes n).nodeID = n ∧ ∀ e, s.entry n n = some e → e.updatedAt ≤ s.clock n

theorem ownEntryBehind_init (clock : NodeID → ℤ) (selfAddr : NodeID → Bytes)
    (membership : NodeID → Option MembershipManager) :
    (init clock selfAddr membership).OwnEntryBehind := by
  refine fun n => ⟨rfl, fun e he => ?_⟩
  simp only [entry, init, Gossip.new, SortedMap.get?_insert_self] at he
  obtain rfl := Option.some.inj he
  exact le_rfl

/-- Replacing the state of a node keeps the invariant, if its own entry is not ahead. -/
theorem OwnEntryBehind.setNode {s : GossipSystem} (hs : s.OwnEntryBehind) {n : NodeID} {g : Gossip}
    (hid : g.nodeID = n) (hown : ∀ e, g.state.get? n = some e → e.updatedAt ≤ s.clock n) :
    (s.setNode n g).OwnEntryBehind := by
  intro m
  by_cases hm : m = n
  · subst hm
    simp only [entry, GossipSystem.setNode, Function.update_self]
    exact ⟨hid, hown⟩
  · simp only [entry, GossipSystem.setNode, Function.update_of_ne hm]
    exact hs m

theorem ownEntryBehind_step {s t : GossipSystem} {e : GossipEvent} (hs : s.OwnEntryBehind)
    (h : s.step e = some t) : t.OwnEntryBehind := by
  cases e with
  | merge n incoming =>
    obtain rfl := Option.some.inj h
    refine hs.setNode (((s.nodes n).nodeID_mergeEntries _).trans (hs n).1) fun e he => ?_
    have hview := congrArg Prod.fst ((s.nodes n).view_merge incoming n)
    rw [if_pos (hs n).1.symm] at hview
    exact (hs n).2 e (hview.symm.trans he)
  | markPeer n nodeID status =>
    obtain rfl := Option.some.inj h
    refine hs.setNode (hs n).1 fun e he => ?_
    rcases get?_markPeer (s.clock n) (s.nodes n) nodeID n status with ⟨-, hsame⟩ | ⟨-, e', he', hup⟩
    · exact (hs n).2 e (hsame.symm.trans he)
    · rw [he'] at he
      obtain rfl := Option.some.inj he
      exact le_of_eq hup
  | setSelf n status =>
    obtain rfl := Option.some.inj h
    refine hs.setNode (hs n).1 fun e he => ?_
    rcases get?_setSelf (s.clock n) (s.nodes n) n status with ⟨hne, -⟩ | ⟨-, e', he', hup⟩
    · exact absurd (hs n).1 hne
    · rw [he'] at he
      obtain rfl := Option.some.inj he
      exact le_of_eq hup
  | tick n now =>
    simp only [step] at h
    split_ifs at h with hle
    obtain rfl := Option.some.inj h
    intro m
    refine ⟨(hs m).1, fun e he => ((hs m).2 e he).trans ?_⟩
    change s.clock m ≤ Function.update s.clock n now m
    by_cases hm : m = n
    · subst hm
      rwa [Function.update_self]
    · rw [Function.update_of_ne hm]

theorem entry_setNode (s : GossipSystem) (n m id : NodeID) (g : Gossip) :
    (s.setNode n g).entry m id = if m = n then g.state.get? id else s.entry m id := by
  simp only [entry, setNode]
  split_ifs with h
  · rw [h, Function.update_self]
  · rw [Function.update_of_ne h]

/-- A step never makes an entry older. -/
theorem asNew_step {s t : GossipSystem} {e : GossipEvent} (hs : s.OwnEntryBehind)
    (hok : s.marksForward e = true) (h : s.step e = some t) (n id : NodeID) :
    AsNew (s.entry n id) (t.entry n id) := by
  have hset : ∀ m g, AsNew ((s.nodes m).state.get? id) (g.state.get? id) →
      AsNew (s.entry n id) ((s.setNode m g).entry n id) := by
    intro m g hg
    rw [entry_setNode]
    split_ifs with hm
    · rw [hm]
      exact hg
    · exact AsNew.refl _
  cases e with
  | merge m incoming =>
    obtain rfl := Option.some.inj h
    exact hset m _ (asNew_merge _ _ _)
  | markPeer m nodeID status =>
    obtain rfl := Option.some.inj h
    refine hset m _ ?_
    rcases get?_markPeer (s.clock m) (s.nodes m) nodeID id status with
      ⟨-, hsame⟩ | ⟨rfl, e', he', hup⟩
    · rw [hsame]
      exact AsNew.refl _
    · intro e he
      simp only [marksForward, entry, he, Option.all_some, decide_eq_true_eq] at hok
      exact ⟨e', he', hup ▸ hok⟩
  | setSelf m status =>
    obtain rfl := Option.some.inj h
    refine hset m _ ?_
    rcases get?_setSelf (s.clock m) (s.nodes m) id status with ⟨-, hsame⟩ | ⟨hid, e', he', hup⟩
    · rw [hsame]
      exact AsNew.refl _
    · intro e he
      rw [(hs m).1] at hid
      subst hid
      exact ⟨e', he', hup ▸ (hs m).2 e he⟩
  | tick m now =>
    simp only [step] at h
    split_ifs at h
    obtain rfl := Option.some.inj h
    exact AsNew.refl _

theorem asNew_run {s t : GossipSystem} (hs : s.OwnEntryBehind)
    (hrun : Runs step (fun s e => s.marksForward e = true) s t) (n id : NodeID) :
    AsNew (s.entry n id) (t.entry n id) := by
  refine (hrun.invariant (fun t => t.OwnEntryBehind ∧ AsNew (s.entry n id) (t.entry n id))
    ⟨hs, AsNew.refl _⟩ ?_).2
  rintro u e v ⟨hu, hnew⟩ hok hstep
  exact ⟨ownEntryBehind_step hu hstep, hnew.trans (asNew_step hu hok hstep n id)⟩

/-- A map with an older entry changes nothing for its id. -/
theorem view_merge_of_asNew {g : Gossip} {id : NodeID} {e : NodeEntry} {incoming : GossipState}
    (hnew : AsNew (some e) (g.state.get? id)) (he : incoming.get? id = some e) :
    (g.merge incoming).view id = g.view id := by
  obtain ⟨e', he', hle⟩ := hnew e rfl
  rw [Gossip.view_merge, he]
  split_ifs
  · rfl
  · rw [Option.elim_some, Gossip.acceptView, if_neg]
    rw [Gossip.view, he', newer_some_iff]
    exact not_lt.2 hle

end GossipSystem

open GossipSystem

/-- In every run of merges, marks and status changes on nodes with any clocks, in which `MarkPeer` is
never called on a node whose clock is behind the entry it replaces: the time of an entry never
decreases; and after `MarkPeer` has replaced an entry, merging a map that contains it, at any later
point, changes neither the entry of the peer nor its status in the membership manager. -/
theorem superseded_gossip_stays_away (clock : NodeID → ℤ) (selfAddr : NodeID → Bytes)
    (membership : NodeID → Option MembershipManager) (s : GossipSystem)
    (hrun : Runs step (fun s e => s.marksForward e = true) (init clock selfAddr membership) s) :
    (∀ t, Runs step (fun s e => s.marksForward e = true) s t → ∀ n id e, s.entry n id = some e →
      ∃ e', t.entry n id = some e' ∧ e.updatedAt ≤ e'.updatedAt) ∧
    ∀ n id status e s' t, s.entry n id = some e →
      s.marksForward (.markPeer n id status) = true → s.step (.markPeer n id status) = some s' →
      Runs step (fun s e => s.marksForward e = true) s' t →
      ∀ incoming : GossipState, incoming.get? id = some e →
        ((t.nodes n).merge incoming).view id = (t.nodes n).view id := by
  have hown : s.OwnEntryBehind := hrun.invariant OwnEntryBehind
    (ownEntryBehind_init clock selfAddr membership) fun _ _ _ hs _ => ownEntryBehind_step hs
  refine ⟨fun t ht n id e he => asNew_run hown ht n id e he, ?_⟩
  intro n id status e s' t he hok hstep ht incoming hincoming
  have hmarked : Runs step (fun s e => s.marksForward e = true) s s' := Runs.single hok hstep
  have hnew := asNew_run hown (hmarked.trans ht) n id
  rw [he] at hnew
  exact view_merge_of_asNew hnew hincoming

/-- The clock of `n2` is 100 seconds ahead of that of `n1`. -/
def skewedClock : NodeID → ℤ := fun n => if n = [110, 50] then 200 else 100

def skewedSystem : GossipSystem :=
  .init skewedClock (fun _ => []) fun n => some (.new (sampleConfig n))

/-- What `n2` sends. -/
def aheadState : GossipState := (skewedSystem.nodes [110, 50]).getState

/-- `n1` hears from `n2`, and when its own clock has caught up finds that `n2` has failed. -/
def markAfterCatchingUp : List GossipEvent :=
  [.merge [110, 49] aheadState, .tick [110, 49] 210, .markPeer [110, 49] [110, 50] .failed]

/-- What `n2` had sent before does not bring it back. -/
theorem superseded_gossip_stays_away_of_ticks :
    let t := stateAfter step skewedSystem markAfterCatchingUp
    (∃ e, t.entry [110, 49] [110, 50] = some e ∧ e.status = .failed) ∧
      ((t.nodes [110, 49]).merge aheadState).view [110, 50] =
        (t.nodes [110, 49]).view [110, 50] := by
  have hexec : (exec step skewedSystem (markAfterCatchingUp.take 2)).isSome = true ∧
      AllOk step (fun s e => s.marksForward e = true) skewedSystem (markAfterCatchingUp.take 2) := by
    decide
  have hmark : (stateAfter step skewedSystem (markAfterCatchingUp.take 2)).entry [110, 49] [110, 50] =
      some ⟨[110, 50], [], .active, 1, 200⟩ := by decide
  refine ⟨⟨⟨[110, 50], [], .failed, 1, 210⟩, by decide, rfl⟩, ?_⟩
  exact (superseded_gossip_stays_away skewedClock _ _ _ (Runs.stateAfter hexec)).2 [110, 49]
    [110, 50] .failed _ _ _ hmark (by decide) rfl (Runs.refl _) aheadState (by decide)

/-- Without waiting, the mark of `n1` is older than the entry it replaces: hearing the same from `n2`
once more makes `n2` active again. -/
theorem superseded_gossip_comes_back :
    let s := stateAfter step skewedSystem [.merge [110, 49] aheadState]
    let t := stateAfter step s [.markPeer [110, 49] [110, 50] .failed]
    (s.entry [110, 49] [110, 50]).map NodeEntry.updatedAt = some 200 ∧
      (t.entry [110, 49] [110, 50]).map NodeEntry.updatedAt = some 100 ∧
      (t.entry [110, 49] [110, 50]).map NodeEntry.status = some .failed ∧
      (((t.nodes [110, 49]).merge aheadState).view [110, 50]) =
        (s.entry [110, 49] [110, 50], some .active) ∧
      (s.entry [110, 49] [110, 50]).map NodeEntry.status = some .active :=
  ⟨by decide, by decide, by decide, by decide, by decide⟩

end GoQuorum
