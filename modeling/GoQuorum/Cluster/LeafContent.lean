import GoQuorum.Cluster.MerkleTree
import GoQuorum.Server.InternalAPI

/-!
# What a bucket hash says about the data

Replicas compare hashes to find out whether they hold the same data.  The text that is hashed for a
key lists the clocks and values of its siblings, without separators, with the times of the clock
entries and without the tombstone flags.  So it changes with the order of the siblings and with the
times a replica stamps, and it does not tell a deletion from a write of the empty value.

`leafInput_faithful_iff` says when the text is the same exactly for the same content: never for all
sets a nonempty set can be compared with, and for two sets that can be read back from their text
when these differences do not arise.
-/

namespace GoQuorum

open Lib

/-- The two sets have the same logical content: the same values with the same counters and tombstone
flags, in any order. -/
def SameContent (S T : SiblingSet) : Prop := (S.map Sibling.view).Perm (T.map Sibling.view)

instance (S T : SiblingSet) : Decidable (SameContent S T) :=
  inferInstanceAs (Decidable (List.Perm _ _))

/-- The text that is hashed is the same exactly if the content is. -/
def ContentFaithful (key : Bytes) (S T : SiblingSet) : Prop :=
  leafInput key S = leafInput key T ↔ SameContent S T

/-- The fields of a sibling that are hashed. -/
def Sibling.hashed (sib : Sibling) : VectorClock × Bytes := (sib.vclock, sib.value)

/-- The siblings can be read back from the text: valid node ids, and no `[` in a value. -/
def Parseable (S : SiblingSet) : Prop := ∀ sib ∈ S, sib.vclock.ValidIDs ∧ 91 ∉ sib.value

instance (S : SiblingSet) : Decidable (Parseable S) :=
  inferInstanceAs (Decidable (∀ sib ∈ S, _ ∧ _))

/-- Sets with the same content list it in the same order and with the same times, and sets that list
the same clocks and values have the same tombstones among them. -/
def ListedAlike (S T : SiblingSet) : Prop :=
  (SameContent S T → S.map Sibling.hashed = T.map Sibling.hashed) ∧
    (S.map Sibling.hashed = T.map Sibling.hashed → SameContent S T)

instance (S T : SiblingSet) : Decidable (ListedAlike S T) :=
  inferInstanceAs (Decidable (_ ∧ _))

/-! ## Reading the text back -/

namespace VectorClock

/-- Bytes other than the brackets around a clock. -/
def plainByte (b : UInt8) : Prop := b ≠ 91 ∧ b ≠ 93

theorem plainByte_of_isNodeIDByte {b : UInt8} (h : isNodeIDByte b = true) : plainByte b := by
  constructor <;> rintro rfl <;> exact absurd h (by decide)

theorem plainByte_of_isDigit {b : UInt8} (h : isDigit b = true) : plainByte b := by
  constructor <;> rintro rfl <;> exact absurd h (by decide)

theorem plainByte_of_mem_entryText {p : NodeID × VectorClockEntry} (hp : ValidNodeID p.1)
    {b : UInt8} (h : b ∈ entryText p) : plainByte b := by
  simp only [entryText, List.mem_append, List.mem_cons] at h
  rcases h with (h | rfl | h) | rfl | h
  · exact plainByte_of_isNodeIDByte (((validNodeID_iff p.1).1 hp).2.2 b h)
  · exact ⟨by decide, by decide⟩
  · exact plainByte_of_isDigit (isDigit_of_mem_decimal h)
  · exact ⟨by decide, by decide⟩
  · rcases mem_decimalInt h with h | rfl
    · exact plainByte_of_isDigit h
    · exact ⟨by decide, by decide⟩

theorem entriesText_eq {l : List (NodeID × VectorClockEntry)} (hl : ∀ p ∈ l, ValidNodeID p.1) :
    ∃ body, entriesText l = body ++ [93] ∧ ∀ b ∈ body, plainByte b := by
  induction l with
  | nil => exact ⟨[], rfl, fun b hb => absurd hb List.not_mem_nil⟩
  | cons p l ih =>
    obtain ⟨hp, hl⟩ := List.forall_mem_cons.1 hl
    obtain ⟨body, hbody, hplain⟩ := ih hl
    refine ⟨[44, 32] ++ entryText p ++ body, ?_, fun b hb => ?_⟩
    · rw [entriesText, hbody, List.append_assoc, List.append_assoc, List.append_assoc]
    · simp only [List.mem_append, List.mem_cons, List.not_mem_nil, or_false] at hb
      rcases hb with ((rfl | rfl) | hb) | hb
      · exact ⟨by decide, by decide⟩
      · exact ⟨by decide, by decide⟩
      · exact plainByte_of_mem_entryText hp hb
      · exact hplain b hb

/-- The text of a clock with valid node ids has no bracket inside. -/
theorem string_eq_brackets {vc : VectorClock} (h : vc.ValidIDs) :
    ∃ body, vc.string = 91 :: (body ++ [93]) ∧ ∀ b ∈ body, plainByte b := by
  unfold ValidIDs at h
  unfold string
  cases hl : vc.entries.toList with
  | nil => exact ⟨[], rfl, fun b hb => absurd hb List.not_mem_nil⟩
  | cons p l =>
    rw [hl] at h
    obtain ⟨hp, hrest⟩ := List.forall_mem_cons.1 h
    obtain ⟨body, hbody, hplain⟩ := entriesText_eq hrest
    refine ⟨entryText p ++ body, ?_, fun b hb => ?_⟩
    · dsimp only
      rw [hbody, List.append_assoc]
    · rcases List.mem_append.1 hb with hb | hb
      · exact plainByte_of_mem_entryText hp hb
      · exact hplain b hb

/-- Every printed clock begins with a bracket. -/
theorem string_eq_cons (vc : VectorClock) : ∃ t, vc.string = 91 :: t := by
  unfold string
  split
  · exact ⟨[93], rfl⟩
  · exact ⟨_, rfl⟩

end VectorClock

/-- The text of one sibling. -/
def Sibling.text (sib : Sibling) : Bytes := sib.vclock.string ++ sib.value

theorem leafInput_eq_iff {key : Bytes} {S T : SiblingSet} :
    leafInput key S = leafInput key T ↔ S.flatMap Sibling.text = T.flatMap Sibling.text :=
  List.append_right_inj key

/-- The text of further siblings, if there is any, begins with a bracket. -/
theorem flatMap_text_head (S : SiblingSet) : ∃ t, S.flatMap Sibling.text ++ [91] = 91 :: t := by
  cases S with
  | nil => exact ⟨[], rfl⟩
  | cons sib S =>
    obtain ⟨t, ht⟩ := sib.vclock.string_eq_cons
    rw [List.flatMap_cons, Sibling.text, ht]
    exact ⟨_, rfl⟩

/-- The first sibling of a text can be read off it. -/
theorem text_append_inj {x y : Sibling} {S T : SiblingSet} (hx : Parseable [x]) (hy : Parseable [y])
    (h : x.text ++ S.flatMap Sibling.text = y.text ++ T.flatMap Sibling.text) :
    x.hashed = y.hashed ∧ S.flatMap Sibling.text = T.flatMap Sibling.text := by
  obtain ⟨hxid, hxval⟩ := hx x List.mem_cons_self
  obtain ⟨hyid, hyval⟩ := hy y List.mem_cons_self
  obtain ⟨a, ha, haplain⟩ := VectorClock.string_eq_brackets hxid
  obtain ⟨b, hb, hbplain⟩ := VectorClock.string_eq_brackets hyid
  have hxtext : x.text = 91 :: (a ++ 93 :: x.value) := by simp [Sibling.text, ha]
  have hytext : y.text = 91 :: (b ++ 93 :: y.value) := by simp [Sibling.text, hb]
  rw [hxtext, hytext] at h
  simp only [List.cons_append, List.append_assoc, List.cons.injEq, true_and] at h
  -- the clock ends at the first closing bracket
  obtain ⟨hab, hvalues⟩ := append_inj_of_head (p := fun c => c ≠ 93) (fun c hc => (haplain c hc).2)
    (fun c hc => (hbplain c hc).2) (by simp) (by simp) h
  have hclock : x.vclock = y.vclock := VectorClock.string_injOn hxid hyid (by rw [ha, hb, hab])
  -- the value ends at the next opening one, or at the end of the text
  obtain ⟨u, hu⟩ := flatMap_text_head S
  obtain ⟨v, hv⟩ := flatMap_text_head T
  have hrest : x.value ++ 91 :: u = y.value ++ 91 :: v := by
    rw [← hu, ← hv, ← List.append_assoc, ← List.append_assoc, (List.cons.inj hvalues).2]
  obtain ⟨hvalue, htail⟩ := append_inj_of_head (p := fun c => c ≠ 91)
    (fun c hc e => hxval (e ▸ hc)) (fun c hc e => hyval (e ▸ hc)) (by simp) (by simp) hrest
  rw [← hu, ← hv] at htail
  exact ⟨Prod.ext hclock hvalue, List.append_cancel_right htail⟩

theorem text_ne_nil (sib : Sibling) (t : Bytes) : sib.text ++ t ≠ [] := by
  obtain ⟨u, hu⟩ := sib.vclock.string_eq_cons
  rw [Sibling.text, hu]
  exact List.cons_ne_nil _ _

/-- The text of sets that can be read back determines their clocks and values, in order. -/
theorem hashed_eq_of_text {S T : SiblingSet} (hS : Parseable S) (hT : Parseable T)
    (h : S.flatMap Sibling.text = T.flatMap Sibling.text) :
    S.map Sibling.hashed = T.map Sibling.hashed := by
  induction S generalizing T with
  | nil =>
    cases T with
    | nil => rfl
    | cons y T => exact absurd h.symm (text_ne_nil y _)
  | cons x S ih =>
    cases T with
    | nil => exact absurd h (text_ne_nil x _)
    | cons y T =>
      rw [List.flatMap_cons, List.flatMap_cons] at h
      obtain ⟨hx, hS⟩ := List.forall_mem_cons.1 hS
      obtain ⟨hy, hT⟩ := List.forall_mem_cons.1 hT
      obtain ⟨hhead, htail⟩ := text_append_inj (List.forall_mem_singleton.2 hx)
        (List.forall_mem_singleton.2 hy) h
      rw [List.map_cons, List.map_cons, hhead, ih hS hT htail]

theorem text_eq_of_hashed {S T : SiblingSet} (h : S.map Sibling.hashed = T.map Sibling.hashed) :
    S.flatMap Sibling.text = T.flatMap Sibling.text := by
  have htext : Sibling.text = (fun p : VectorClock × Bytes => p.1.string ++ p.2) ∘ Sibling.hashed :=
    rfl
  rw [htext, List.flatMap_def, List.flatMap_def, ← List.map_map, ← List.map_map, h]

/-! ## The text and the content -/

/-- A sibling with its tombstone flag turned over. -/
def Sibling.flipped (sib : Sibling) : Sibling := { sib with tombstone := !sib.tombstone }

/-- Turning a tombstone flag over changes the content. -/
theorem not_sameContent_flipped (x : Sibling) (S : SiblingSet) :
    ¬ SameContent (x :: S) (x.flipped :: S) := by
  intro h
  have hcount := h.countP_eq fun v => v.2.2
  simp only [List.map_cons, List.countP_cons, Sibling.view, Sibling.flipped] at hcount
  cases htomb : x.tombstone <;> simp [htomb] at hcount

theorem sameContent_nil_iff {T : SiblingSet} : SameContent [] T ↔ T = [] := by
  unfold SameContent
  rw [List.map_nil, List.nil_perm, List.map_eq_nil_iff]

theorem contentFaithful_nil (key : Bytes) (T : SiblingSet) : ContentFaithful key [] T := by
  unfold ContentFaithful
  rw [leafInput_eq_iff, sameContent_nil_iff]
  cases T with
  | nil => exact iff_of_true rfl rfl
  | cons y T => exact iff_of_false (fun h => text_ne_nil y _ h.symm) (List.cons_ne_nil _ _)

/-- A set is told apart from all sets of other content, and identified with all of the same content,
only if it is empty; two sets that can be read back from their text are told apart or identified as
they should be exactly if they are listed alike. -/
theorem leafInput_faithful_iff (S : SiblingSet) :
    ((∀ key T, ContentFaithful key S T) ↔ S = []) ∧
    ∀ (key : Bytes) (T : SiblingSet), Parseable S → Parseable T →
      (ContentFaithful key S T ↔ ListedAlike S T) := by
  constructor
  · constructor
    · intro h
      cases S with
      | nil => rfl
      | cons x S =>
        -- the text does not show the tombstone flag
        have hsame : leafInput [] (x :: S) = leafInput [] (x.flipped :: S) := rfl
        exact absurd ((h [] (x.flipped :: S)).1 hsame) (not_sameContent_flipped x S)
    · rintro rfl
      exact contentFaithful_nil
  · intro key T hS hT
    have htext : leafInput key S = leafInput key T ↔
        S.map Sibling.hashed = T.map Sibling.hashed :=
      leafInput_eq_iff.trans ⟨hashed_eq_of_text hS hT, text_eq_of_hashed⟩
    unfold ContentFaithful ListedAlike
    rw [htext]
    exact ⟨fun h => ⟨h.2, h.1⟩, fun h => ⟨h.2, h.1⟩⟩

/-- A version written by the node `n1` at the given time. -/
def writtenByN1 (now : Int64) (value : Bytes) (tombstone : Bool) : Sibling :=
  ⟨value, VectorClock.new.set now [110, 49] 1, now, tombstone, 0⟩

/-- Two versions with different values are told apart. -/
theorem leafInput_faithful_iff_of_values :
    ContentFaithful [107] [writtenByN1 100 [97] false] [writtenByN1 100 [98] false] :=
  ((leafInput_faithful_iff [writtenByN1 100 [97] false]).2 [107] [writtenByN1 100 [98] false]
    (by decide +kernel) (by decide +kernel)).2 (by decide +kernel)

/-- A deletion and a write of the empty value have the same text; the same write stamped by two
replicas at different times has two. -/
theorem leafInput_not_faithful :
    (leafInput [107] [writtenByN1 100 [] false] = leafInput [107] [writtenByN1 100 [] true] ∧
      ¬ SameContent [writtenByN1 100 [] false] [writtenByN1 100 [] true]) ∧
    (leafInput [107] [writtenByN1 100 [97] false] ≠ leafInput [107] [writtenByN1 200 [97] false] ∧
      SameContent [writtenByN1 100 [97] false] [writtenByN1 200 [97] false]) := by
  decide +kernel

end GoQuorum
