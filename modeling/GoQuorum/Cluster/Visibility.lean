import GoQuorum.Cluster.Reads

/-!
# Which writes a read shows

Two results about what a `Get` returns after writes that were acknowledged, each with a run in which
it fails when its condition is dropped:

* a `Get` shows an acknowledged `Put` unless another write on the key dominates it, so it shows the
  `Put` it follows if no earlier write does (`acknowledged_put_visible`).  A blind write after a
  newer version is acknowledged and stays invisible (`blind_write_invisible`);
* two `Put`s with different clocks both survive (`concurrent_puts_survive`).  Two with the same
  context and coordinator have equal clocks, and one of the values is lost
  (`same_context_loses_value`).
-/

namespace GoQuorum

open Lib Lib.Versions

namespace Cluster

open ClusterState

variable {sum64 : Bytes → UInt64} {cl : Cluster sum64} {s t s₁ s₂ : ClusterState} {e : ClusterEvent}

/-! ## Shown or dominated -/

/-- A `Get` shows an acknowledged `Put`, or another write on the key dominates it. -/
theorem returned_or_dominated {ok : ClusterState → ClusterEvent → Prop} {i j : ℕ} {w : WriteOp}
    {r : ReadOp} {arrivals : List ReadResponse} (hok : ∀ s e, ok s e → s.Plain e ∧ s.Atomic e)
    (hsound₁ : cl.Sound s₁) (hw : s₁.writes i = some w)
    (hW : cl.quorumConfig.W ≤ countSuccesses w.responses)
    (hlive : w.plan.sibling.tombstone = false) (hnew : s₁.reads j = none)
    (hrun : Runs cl.step ok s₁ s₂) (hr : s₂.reads j = some r) (hkey : r.key = w.plan.key)
    (harr : arrivals.Subperm r.answers)
    (hR : cl.quorumConfig.R ≤ readSuccesses (cl.collected arrivals)) :
    (∃ sibs, cl.getResult r arrivals = .ok sibs ∧ ∃ z ∈ sibs, z.view = w.plan.sibling.view) ∨
      ∃ m op, m ≠ i ∧ s₂.writes m = some op ∧ op.plan.key = w.plan.key ∧
        w.plan.sibling.vclock ≤ op.plan.sibling.vclock := by
  obtain ⟨hsound₂, hext, hshows⟩ := shows_durable hok hsound₁ hnew hrun
  -- a sibling above the write is its own, or that of another write
  have own : ∀ x, s₂.Issued r.key x → w.plan.sibling.vclock ≤ x.vclock →
      x.view = w.plan.sibling.view ∨ ∃ m op, m ≠ i ∧ s₂.writes m = some op ∧
        op.plan.key = w.plan.key ∧ w.plan.sibling.vclock ≤ op.plan.sibling.vclock := by
    rintro x ⟨m, op, hop, hk, hview⟩ hle
    by_cases hm : m = i
    · subst hm
      obtain ⟨w', hw', hplan, -⟩ := hext m w hw
      obtain rfl : w' = op := Option.some.inj (hw'.symm.trans hop)
      exact Or.inl (hplan ▸ hview)
    · exact Or.inr ⟨m, op, hm, hop, hk.trans hkey, hle.trans (le_of_view hview)⟩
  obtain ⟨x, hle, hissued, hcovers⟩ :=
    exists_covering hsound₁ hw hW hsound₂ hshows hr hkey harr hR
  rcases own x hissued hle with hview | hother
  swap
  · exact Or.inr hother
  obtain ⟨z, hz, hlez, hgathered⟩ := exists_merged (hcovers ((tombstone_of_view hview).trans hlive))
  rcases own z (issued_of_gathered hshows hr harr hgathered) hlez with hview | hother
  swap
  · exact Or.inr hother
  obtain ⟨sibs, hres, hmem⟩ :=
    getResult_of_live (r := r) hR hz ((tombstone_of_view hview).trans hlive)
  exact Or.inl ⟨sibs, hres, z, hmem, hview⟩

/-- One of two acknowledged `Put`s with different clocks: it is shown, or the other is after it, or a
third write dominates it. -/
theorem returned_or_superseded {ok : ClusterState → ClusterEvent → Prop} {a b j : ℕ}
    {wa wb : WriteOp} {r : ReadOp} {arrivals : List ReadResponse}
    (hok : ∀ s e, ok s e → s.Plain e ∧ s.Atomic e) (hsound₁ : cl.Sound s₁)
    (hwa : s₁.writes a = some wa) (hwb : s₁.writes b = some wb)
    (hW : cl.quorumConfig.W ≤ countSuccesses wa.responses)
    (hlive : wa.plan.sibling.tombstone = false)
    (hne : ¬ wb.plan.sibling.vclock ≤ wa.plan.sibling.vclock ∨
      ¬ wa.plan.sibling.vclock ≤ wb.plan.sibling.vclock)
    (hnew : s₁.reads j = none) (hrun : Runs cl.step ok s₁ s₂) (hr : s₂.reads j = some r)
    (hkey : r.key = wa.plan.key) (harr : arrivals.Subperm r.answers)
    (hR : cl.quorumConfig.R ≤ readSuccesses (cl.collected arrivals)) :
    (∃ sibs, cl.getResult r arrivals = .ok sibs ∧ ∃ z ∈ sibs, z.value = wa.plan.sibling.value) ∨
      wb.plan.sibling.vclock.happensAfter wa.plan.sibling.vclock = true ∨
      ∃ m op, m ≠ a ∧ m ≠ b ∧ s₂.writes m = some op ∧ op.plan.key = r.key ∧
        op.plan.sibling.vclock.dominates wa.plan.sibling.vclock = true := by
  rcases returned_or_dominated hok hsound₁ hwa hW hlive hnew hrun hr hkey harr hR with
    ⟨sibs, hres, z, hz, hview⟩ | ⟨m, op, hm, hop, hk, hle⟩
  · exact Or.inl ⟨sibs, hres, z, hz, value_of_view hview⟩
  refine Or.inr ?_
  by_cases hmb : m = b
  · subst hmb
    obtain ⟨op', hop', hp, -⟩ := extends_of_runs hrun m wb hwb
    obtain rfl : op' = op := Option.some.inj (hop'.symm.trans hop)
    rw [hp] at hle
    exact Or.inl (VectorClock.happensAfter_iff.2
      (lt_of_le_not_ge hle (hne.resolve_right fun h => h hle)))
  · exact Or.inr ⟨m, op, hm, hmb, hop, hk.trans hkey.symm, VectorClock.dominates_iff.2 hle⟩

/-- The responses that arrive decide whether those collected are a quorum. -/
theorem collected_quorum {arrivals : List ReadResponse}
    (h : cl.quorumConfig.R ≤ readSuccesses arrivals) :
    cl.quorumConfig.R ≤ readSuccesses (cl.collected arrivals) :=
  readSuccesses_collectReads h

/-! ## A write and nothing after it -/

/-- No write on the key but the `i`-th dominates the clock. -/
def Undominated (key : Bytes) (i : ℕ) (c : VectorClock) (s : ClusterState) : Prop :=
  ∀ m op, s.writes m = some op → op.plan.key = key → m ≠ i → ¬ c ≤ op.plan.sibling.vclock

theorem Undominated.step {key : Bytes} {i : ℕ} {c : VectorClock} (h : Undominated key i c s)
    (hno : ∀ k coordinator times call, e = .issue k coordinator times call → k ≠ i →
      call.key ≠ key) (hs : cl.step s e = some t) : Undominated key i c t := by
  intro m op' hm hkey hne
  rcases write_of_step hs hm with ⟨op, hop, hplan⟩ | ⟨coordinator, times, call, he, hplan⟩
  · rw [hplan] at hkey ⊢
    exact h m op hop hkey hne
  · exact absurd ((Coordinator.plan_eq_ok hplan).1.symm.trans hkey) (hno m _ _ call he hne)

end Cluster

open Cluster ClusterState

/-- After any history, a `Put` whose clock no earlier write on the key dominates is shown by the next
`Get`: as long as no other write on the key is issued, a `Get` that begins after the `Put` has
returned and hears from a read quorum returns its value. -/
theorem acknowledged_put_visible {sum64 : Bytes → UInt64} (cl : Cluster sum64)
    (opts : NodeID → StorageOptions) (s₀ s₁ s₂ s₃ : ClusterState) (i j : ℕ)
    (coordinator : MemberID) (times : WriteTimes) (key value : Bytes) (context c : VectorClock)
    (w : WriteOp) (r : ReadOp) (arrivals : List ReadResponse)
    (h₀ : Runs cl.step (fun s e => s.Plain e ∧ s.Atomic e) (init opts) s₀)
    (hctx : context.ValidIDs)
    (hissue : cl.step s₀ (.issue i coordinator times (.put key value context 0)) = some s₁)
    (hfree : ∀ m op, s₀.writes m = some op → op.plan.key = key →
      op.plan.sibling.vclock.dominates ((cl.coordinator coordinator).newVClock times context) =
        false)
    (h₁ : Runs cl.step (fun s e => e.NoWrite key ∧ s.Plain e ∧ s.Atomic e) s₁ s₂)
    (hw : s₂.writes i = some w) (hput : cl.putResult w = some (.ok c)) (hnew : s₂.reads j = none)
    (h₂ : Runs cl.step (fun s e => e.NoWrite key ∧ s.Plain e ∧ s.Atomic e) s₂ s₃)
    (hr : s₃.reads j = some r) (hkey : r.key = key) (harr : arrivals.Subperm r.answers)
    (hR : cl.quorumConfig.R ≤ readSuccesses arrivals) :
    ∃ sibs, cl.getResult r arrivals = .ok sibs ∧ ∃ sib ∈ sibs, sib.value = value := by
  obtain ⟨hW, -⟩ := acks_of_putResult hput
  have hsound₁ : cl.Sound s₁ :=
    (sound_of_runs (fun _ _ h => h) (sound_init opts) h₀).step
      (e := .issue i coordinator times (.put key value context 0)) ⟨hctx, Int64.le_refl 0⟩ trivial
      hissue
  have hsound₂ := sound_of_runs (fun _ _ h => h.2) hsound₁ h₁
  -- the write in `s₂` is the one that was issued
  obtain ⟨-, plan, hplan, rfl⟩ := step_issue hissue
  obtain ⟨hpkey, hpsib, -⟩ := Coordinator.plan_eq_ok hplan
  have hwplan : w.plan = plan := by
    obtain ⟨w', hw', hp, -⟩ :=
      extends_of_runs h₁ i ⟨coordinator, plan, []⟩ (Function.update_self ..)
    obtain rfl : w' = w := Option.some.inj (hw'.symm.trans hw)
    exact hp
  have hund : Undominated key i w.plan.sibling.vclock s₃ := by
    refine (h₁.trans h₂).invariant (Undominated key i w.plan.sibling.vclock) ?_ ?_
    · intro m op hm hk hne
      simp only [Function.update_of_ne hne] at hm
      rw [hwplan, hpsib, Coordinator.vclock_newSibling, ← VectorClock.dominates_iff]
      rw [WriteCall.context, hfree m op hm hk]
      exact Bool.false_ne_true
    · intro s e t h hc hs
      refine h.step (fun k _ _ call he _ => ?_) hs
      subst he
      exact hc.1
  rcases returned_or_dominated (fun _ _ h => h.2) hsound₂ hw hW (by rw [hwplan, hpsib]; rfl) hnew h₂
    hr (by rw [hkey, hwplan, hpkey]; rfl) harr (collected_quorum hR) with
    ⟨sibs, hres, z, hz, hview⟩ | ⟨m, op, hm, hop, hk, hle⟩
  · refine ⟨sibs, hres, z, hz, ?_⟩
    rw [value_of_view hview, hwplan, hpsib]
    rfl
  · exact absurd hle (hund m op hop (by rw [hk, hwplan, hpkey]; rfl) hm)

/-- A cluster of one node. -/
def oneNode : Cluster sampleSum64 where
  ring := sampleRing [n1]
  quorumConfig := ⟨1, 1, 1, false⟩
  valid := by decide
  strict := rfl
  strong := by decide

set_option maxRecDepth 4000 in
theorem acknowledged_put_visible_after_first :
    ∃ r : ReadOp, r.key = [107] ∧ ∃ sibs, oneNode.getResult r r.answers = .ok sibs ∧
      ∃ sib ∈ sibs, sib.value = [2] := by
  let first := putEvent 0 n1 1 VectorClock.new :: deliverTo 0 n1 [n1]
  let s₀ := stateAfter oneNode.step sampleStart first
  let s₁ := stateAfter oneNode.step s₀ [putEvent 1 n1 2 (VectorClock.new.set 100 n1 1)]
  let s₂ := stateAfter oneNode.step s₁ (deliverTo 1 n1 [n1])
  let s₃ := stateAfter oneNode.step s₂ (getFrom n1 [n1])
  obtain ⟨w, hw, hput⟩ := Option.map_eq_some_iff.1
    (by decide +kernel : (s₂.writes 1).map oneNode.putResult =
      some (some (.ok (VectorClock.new.set 100 n1 2))))
  obtain ⟨r, hr, hget⟩ := Option.map_eq_some_iff.1
    (by decide +kernel : (s₃.reads 0).map (fun r => (r.key, readSuccesses r.answers)) =
      some ([107], 1))
  obtain ⟨hkey, hcount⟩ := Prod.mk.inj hget
  refine ⟨r, hkey, acknowledged_put_visible oneNode (fun _ => defaultStorageOptions) s₀ s₁ s₂ s₃ 1 0
    n1 ⟨100, 100, 100⟩ [107] [2] (VectorClock.new.set 100 n1 1) _ w r r.answers ?_ (by decide +kernel)
    (step_eq_stateAfter (by decide +kernel)) ?_ ?_ hw hput ?_ ?_ hr hkey (List.Subperm.refl _)
    (by rw [hcount]; decide)⟩
  · exact Runs.stateAfter (by decide +kernel)
  · intro m op hm _
    have hexec : exec oneNode.step sampleStart first = some s₀ :=
      exec_eq_stateAfter (by decide +kernel)
    have hmem : m ∈ issuedIDs first :=
      (mem_issuedIDs hexec hm).resolve_left fun ⟨_, h⟩ => by cases h
    rw [show issuedIDs first = [0] by decide +kernel, List.mem_singleton] at hmem
    subst hmem
    have hdom : (s₀.writes 0).map (fun op => op.plan.sibling.vclock.dominates
        ((oneNode.coordinator n1).newVClock ⟨100, 100, 100⟩ (VectorClock.new.set 100 n1 1))) =
        some false := by decide +kernel
    rw [hm] at hdom
    exact Option.some.inj hdom
  · exact Runs.stateAfter (by decide +kernel)
  · exact Option.isNone_iff_eq_none.1 (by decide +kernel)
  · exact Runs.stateAfter (by decide +kernel)

/-- A first `Put`, and a second one that has seen it. -/
def putTwice : List ClusterEvent :=
  putEvent 0 n1 1 VectorClock.new :: deliverTo 0 n1 [n1] ++
    putEvent 1 n1 2 (VectorClock.new.set 100 n1 1) :: deliverTo 1 n1 [n1]

set_option maxRecDepth 4000 in
/-- A blind write after a newer version is acknowledged, and the next `Get` does not return it. -/
theorem blind_write_invisible :
    ∃ (s₀ s₁ s₂ s₃ : ClusterState) (w : WriteOp) (r : ReadOp) (sibs : List Sibling),
      Runs oneNode.step (fun s e => s.Plain e ∧ s.Atomic e) sampleStart s₀ ∧
      oneNode.step s₀ (putEvent 2 n1 3 VectorClock.new) = some s₁ ∧
      Runs oneNode.step (fun s e => e.NoWrite [107] ∧ s.Plain e ∧ s.Atomic e) s₁ s₂ ∧
      s₂.writes 2 = some w ∧
      oneNode.putResult w = some (.ok (VectorClock.new.set 100 n1 1)) ∧
      s₂.reads 0 = none ∧
      Runs oneNode.step (fun s e => e.NoWrite [107] ∧ s.Plain e ∧ s.Atomic e) s₂ s₃ ∧
      s₃.reads 0 = some r ∧ r.key = [107] ∧
      oneNode.getResult r r.answers = .ok sibs ∧ ∀ sib ∈ sibs, sib.value ≠ [3] := by
  let s₀ := stateAfter oneNode.step sampleStart putTwice
  let s₁ := stateAfter oneNode.step s₀ [putEvent 2 n1 3 VectorClock.new]
  let s₂ := stateAfter oneNode.step s₁ (deliverTo 2 n1 [n1])
  let s₃ := stateAfter oneNode.step s₂ (getFrom n1 [n1])
  obtain ⟨w, hw, hput⟩ := Option.map_eq_some_iff.1
    (by decide +kernel : (s₂.writes 2).map oneNode.putResult =
      some (some (.ok (VectorClock.new.set 100 n1 1))))
  obtain ⟨r, hr, hget⟩ := Option.map_eq_some_iff.1
    (by decide +kernel : (s₃.reads 0).map (fun r => (r.key, oneNode.getResult r r.answers)) =
      some ([107], .ok [versionBy n1 2 2]))
  obtain ⟨hkey, hres⟩ := Prod.mk.inj hget
  refine ⟨s₀, s₁, s₂, s₃, w, r, _, Runs.stateAfter (by decide +kernel),
    step_eq_stateAfter (by decide +kernel), Runs.stateAfter (by decide +kernel),
    hw, hput, Option.isNone_iff_eq_none.1 (by decide +kernel),
    Runs.stateAfter (by decide +kernel), hr, hkey, hres, by decide +kernel⟩

/-- Two `Put`s on a key that have returned different clocks: a later `Get` that hears from a read
quorum shows the value of each, unless the other is after it or a third write dominates it. -/
theorem concurrent_puts_survive {sum64 : Bytes → UInt64} (cl : Cluster sum64)
    (opts : NodeID → StorageOptions) (s₁ s₂ : ClusterState) (a b j : ℕ) (wa wb : WriteOp)
    (ca cb : VectorClock) (r : ReadOp) (arrivals : List ReadResponse)
    (h₁ : Runs cl.step (fun s e => s.Plain e ∧ s.Atomic e) (init opts) s₁)
    (hwa : s₁.writes a = some wa) (hwb : s₁.writes b = some wb)
    (hlive : wa.plan.sibling.tombstone = false ∧ wb.plan.sibling.tombstone = false)
    (hputa : cl.putResult wa = some (.ok ca)) (hputb : cl.putResult wb = some (.ok cb))
    (hne : ca.equals cb = false) (hnew : s₁.reads j = none)
    (h₂ : Runs cl.step (fun s e => s.Plain e ∧ s.Atomic e) s₁ s₂) (hr : s₂.reads j = some r)
    (hkey : r.key = wa.plan.key ∧ r.key = wb.plan.key) (harr : arrivals.Subperm r.answers)
    (hR : cl.quorumConfig.R ≤ readSuccesses arrivals) :
    ((∃ sibs, cl.getResult r arrivals = .ok sibs ∧ ∃ z ∈ sibs, z.value = wa.plan.sibling.value) ∨
      cb.happensAfter ca = true ∨ ∃ m op, m ≠ a ∧ m ≠ b ∧ s₂.writes m = some op ∧
        op.plan.key = r.key ∧ op.plan.sibling.vclock.dominates ca = true) ∧
    ((∃ sibs, cl.getResult r arrivals = .ok sibs ∧ ∃ z ∈ sibs, z.value = wb.plan.sibling.value) ∨
      ca.happensAfter cb = true ∨ ∃ m op, m ≠ a ∧ m ≠ b ∧ s₂.writes m = some op ∧
        op.plan.key = r.key ∧ op.plan.sibling.vclock.dominates cb = true) := by
  obtain ⟨hWa, rfl⟩ := acks_of_putResult hputa
  obtain ⟨hWb, rfl⟩ := acks_of_putResult hputb
  have hsound₁ := sound_of_runs (fun _ _ h => h) (sound_init opts) h₁
  have hne' : ¬ wb.plan.sibling.vclock ≤ wa.plan.sibling.vclock ∨
      ¬ wa.plan.sibling.vclock ≤ wb.plan.sibling.vclock := by
    by_contra h
    simp only [not_or, not_not] at h
    rw [VectorClock.equals_iff.2 ⟨h.2, h.1⟩] at hne
    cases hne
  have hcoll := collected_quorum hR
  refine ⟨returned_or_superseded (fun _ _ h => h) hsound₁ hwa hwb hWa hlive.1 hne' hnew h₂ hr
    hkey.1 harr hcoll, ?_⟩
  refine (returned_or_superseded (fun _ _ h => h) hsound₁ hwb hwa hWb hlive.2 hne'.symm hnew h₂ hr
    hkey.2 harr hcoll).imp_right (Or.imp_right ?_)
  rintro ⟨m, op, hb, ha, hop⟩
  exact ⟨m, op, ha, hb, hop⟩

/-- Blind `Put`s of two values by two coordinators, each acknowledged by two replicas. -/
def putsByTwo : List ClusterEvent :=
  putEvent 0 n1 1 VectorClock.new :: deliverTo 0 n1 [n1, n2] ++
    putEvent 1 n2 2 VectorClock.new :: deliverTo 1 n2 [n1, n2] ++
    [.fail 0 n3 (.remote n3 .unreachable), .fail 1 n3 (.remote n3 .unreachable)]

set_option maxRecDepth 4000 in
theorem concurrent_puts_survive_of_two_coordinators :
    ∃ (s₂ : ClusterState) (r : ReadOp), s₂.reads 0 = some r ∧
      ((∃ sibs, sampleCluster.getResult r r.answers = .ok sibs ∧ ∃ z ∈ sibs, z.value = [1]) ∨
        (VectorClock.new.set 100 n2 1).happensAfter (VectorClock.new.set 100 n1 1) = true ∨
        ∃ m op, m ≠ 0 ∧ m ≠ 1 ∧ s₂.writes m = some op ∧ op.plan.key = r.key ∧
          op.plan.sibling.vclock.dominates (VectorClock.new.set 100 n1 1) = true) := by
  let s₁ := stateAfter sampleCluster.step sampleStart putsByTwo
  let s₂ := stateAfter sampleCluster.step s₁ (getFrom n1 [n1, n2])
  obtain ⟨wa, hwa, hputa⟩ := Option.map_eq_some_iff.1
    (by decide +kernel : (s₁.writes 0).map (fun w => (w.plan.key, w.plan.sibling.tombstone,
      w.plan.sibling.value, sampleCluster.putResult w)) =
      some ([107], false, [1], some (.ok (VectorClock.new.set 100 n1 1))))
  obtain ⟨wb, hwb, hputb⟩ := Option.map_eq_some_iff.1
    (by decide +kernel : (s₁.writes 1).map (fun w => (w.plan.key, w.plan.sibling.tombstone,
      sampleCluster.putResult w)) =
      some ([107], false, some (.ok (VectorClock.new.set 100 n2 1))))
  obtain ⟨r, hr, hget⟩ := Option.map_eq_some_iff.1
    (by decide +kernel : (s₂.reads 0).map (fun r => (r.key, readSuccesses r.answers)) =
      some ([107], 2))
  simp only [Prod.mk.injEq] at hputa hputb hget
  obtain ⟨hkeya, hlivea, hvaluea, hputa⟩ := hputa
  obtain ⟨hkeyb, hliveb, hputb⟩ := hputb
  have h := (concurrent_puts_survive sampleCluster (fun _ => defaultStorageOptions) s₁ s₂ 0 1 0 wa wb
    _ _ r r.answers (Runs.stateAfter (by decide +kernel)) hwa hwb
    ⟨hlivea, hliveb⟩ hputa hputb (by decide +kernel) (Option.isNone_iff_eq_none.1 (by decide +kernel))
    (Runs.stateAfter (by decide +kernel)) hr
    ⟨hget.1.trans hkeya.symm, hget.1.trans hkeyb.symm⟩ (List.Subperm.refl _)
    (by rw [hget.2]; decide)).1
  rw [hvaluea] at h
  exact ⟨s₂, r, hr, h⟩

/-- Two blind `Put`s of different values through the same coordinator. -/
def putsByOne : List ClusterEvent :=
  putEvent 0 n1 1 VectorClock.new :: deliverTo 0 n1 [n1] ++
    putEvent 1 n1 2 VectorClock.new :: deliverTo 1 n1 [n1]

set_option maxRecDepth 4000 in
/-- Two clients with the same context and coordinator: both `Put`s return, every replica has taken
both, there are no other writes, and a `Get` does not return the first value. -/
theorem same_context_loses_value :
    ∃ (s₁ s₂ : ClusterState) (wa wb : WriteOp) (ca cb : VectorClock) (r : ReadOp)
      (sibs : List Sibling),
      s₁ = stateAfter oneNode.step sampleStart putsByOne ∧
      Runs oneNode.step (fun s e => s.Plain e ∧ s.Atomic e) sampleStart s₁ ∧
      s₁.writes 0 = some wa ∧ oneNode.putResult wa = some (.ok ca) ∧
      s₁.writes 1 = some wb ∧ oneNode.putResult wb = some (.ok cb) ∧
      s₁.reads 0 = none ∧
      Runs oneNode.step (fun s e => s.Plain e ∧ s.Atomic e) s₁ s₂ ∧
      s₂.reads 0 = some r ∧ r.key = [107] ∧ oneNode.getResult r r.answers = .ok sibs ∧
      wa.plan.sibling.value ≠ wb.plan.sibling.value ∧
      (∀ z ∈ sibs, z.value ≠ wa.plan.sibling.value) ∧
      cb.happensAfter ca = false ∧ ∀ m op, s₂.writes m = some op → m = 0 ∨ m = 1 := by
  let s₁ := stateAfter oneNode.step sampleStart putsByOne
  let s₂ := stateAfter oneNode.step s₁ (getFrom n1 [n1])
  obtain ⟨wa, hwa, hputa⟩ := Option.map_eq_some_iff.1
    (by decide +kernel : (s₁.writes 0).map (fun w => (oneNode.putResult w, w.plan.sibling.value)) =
      some (some (.ok (VectorClock.new.set 100 n1 1)), [1]))
  obtain ⟨wb, hwb, hputb⟩ := Option.map_eq_some_iff.1
    (by decide +kernel : (s₁.writes 1).map (fun w => (oneNode.putResult w, w.plan.sibling.value)) =
      some (some (.ok (VectorClock.new.set 100 n1 1)), [2]))
  obtain ⟨r, hr, hget⟩ := Option.map_eq_some_iff.1
    (by decide +kernel : (s₂.reads 0).map (fun r => (r.key, oneNode.getResult r r.answers)) =
      some ([107], .ok [versionBy n1 1 2]))
  obtain ⟨hputa, hvaluea⟩ := Prod.mk.inj hputa
  obtain ⟨hputb, hvalueb⟩ := Prod.mk.inj hputb
  obtain ⟨hkey, hres⟩ := Prod.mk.inj hget
  refine ⟨s₁, s₂, wa, wb, _, _, r, _, rfl, Runs.stateAfter (by decide +kernel),
    hwa, hputa, hwb, hputb, Option.isNone_iff_eq_none.1 (by decide +kernel),
    Runs.stateAfter (by decide +kernel), hr, hkey, hres, ?_, ?_,
    by decide +kernel, fun m op hm => ?_⟩
  · rw [hvaluea, hvalueb]
    decide
  · rw [hvaluea]
    decide +kernel
  · have hexec₁ : exec oneNode.step sampleStart putsByOne = some s₁ :=
      exec_eq_stateAfter (by decide +kernel)
    have hexec₂ : exec oneNode.step s₁ (getFrom n1 [n1]) = some s₂ :=
      exec_eq_stateAfter (by decide +kernel)
    rcases mem_issuedIDs hexec₂ hm with ⟨op₁, hop₁⟩ | h
    · rcases mem_issuedIDs hexec₁ hop₁ with ⟨_, h⟩ | h
      · cases h
      · rw [show issuedIDs putsByOne = [0, 1] by decide +kernel] at h
        simpa using h
    · rw [show issuedIDs (getFrom n1 [n1]) = [] by decide +kernel] at h
      cases h

end GoQuorum
