import Mathlib.Data.List.Nodup
import Mathlib.Data.Set.Finite.Lemmas
import Mathlib.Order.Comparable
import Mathlib.Order.Preorder.Finite

/-!
# Lists of versions over a preorder

A version is a value with a clock, and clocks form a preorder: `clock x ≤ clock y` says that `y`
has seen everything `x` has.  A list of versions *covers* a clock when one of its versions is at
least that clock, and it is an *antichain* when no two of its versions are comparable.

Three operations on such lists are studied, for any type of versions and any preorder:

* `dedupBy` keeps the first version of each key;
* `join` puts new versions before the old ones that none of them supersedes and then deduplicates.
  It keeps everything covered (`covers_join`), and it keeps an antichain when no new version is
  below an old one (`antichain_join`);
* `maximals` keeps one version of each maximal clock, so it covers what the list covered
  (`covers_maximals`), is an antichain (`antichain_maximals`) and depends only on what the list
  covers (`exists_mem_maximals_of_covers`).
-/

namespace Lib.Versions

variable {α π κ : Type}

/-! ## Deduplication -/

section Dedup

variable [DecidableEq κ] (key : α → κ)

/-- Keep, in order, the elements whose key has not been seen. -/
def dedupBy (seen : List κ) : List α → List α
  | [] => []
  | x :: l => if key x ∈ seen then dedupBy seen l else x :: dedupBy (key x :: seen) l

theorem dedupBy_sublist (seen : List κ) (l : List α) : (dedupBy key seen l).Sublist l := by
  induction l generalizing seen with
  | nil => exact List.Sublist.slnil
  | cons x l ih =>
    rw [dedupBy]
    split_ifs
    · exact (ih seen).cons x
    · exact (ih _).cons_cons x

theorem key_notMem_of_mem_dedupBy {seen : List κ} {l : List α} {x : α}
    (h : x ∈ dedupBy key seen l) : key x ∉ seen := by
  induction l generalizing seen with
  | nil => cases h
  | cons y l ih =>
    rw [dedupBy] at h
    split_ifs at h with hy
    · exact ih h
    · rcases List.mem_cons.1 h with rfl | h
      · exact hy
      · exact fun hx => ih h (List.mem_cons_of_mem _ hx)

theorem nodup_map_dedupBy (seen : List κ) (l : List α) : ((dedupBy key seen l).map key).Nodup := by
  induction l generalizing seen with
  | nil => exact List.nodup_nil
  | cons x l ih =>
    rw [dedupBy]
    split_ifs
    · exact ih seen
    · rw [List.map_cons, List.nodup_cons]
      refine ⟨fun h => ?_, ih _⟩
      obtain ⟨y, hy, hk⟩ := List.mem_map.1 h
      exact key_notMem_of_mem_dedupBy key hy (hk ▸ List.mem_cons_self)

/-- An element that is dropped shares its key with one that is kept. -/
theorem exists_mem_dedupBy (seen : List κ) {l : List α} {x : α} (hx : x ∈ l)
    (hs : key x ∉ seen) : ∃ y ∈ dedupBy key seen l, key y = key x := by
  induction l generalizing seen with
  | nil => cases hx
  | cons z l ih =>
    rw [dedupBy]
    split_ifs with hz
    · rcases List.mem_cons.1 hx with rfl | hx
      · exact absurd hz hs
      · exact ih seen hx hs
    · by_cases hk : key z = key x
      · exact ⟨z, List.mem_cons_self, hk⟩
      · rcases List.mem_cons.1 hx with rfl | hx
        · exact absurd rfl hk
        · obtain ⟨y, hy, e⟩ := ih (key z :: seen) hx (by simp [Ne.symm hk, hs])
          exact ⟨y, List.mem_cons_of_mem _ hy, e⟩

/-- A list without repeated keys is left alone. -/
theorem dedupBy_eq_self {seen : List κ} {l : List α} (hnodup : (l.map key).Nodup)
    (hseen : ∀ x ∈ l, key x ∉ seen) : dedupBy key seen l = l := by
  induction l generalizing seen with
  | nil => rfl
  | cons x l ih =>
    obtain ⟨hx, hl⟩ := List.nodup_cons.1 hnodup
    rw [dedupBy, if_neg (hseen x List.mem_cons_self), ih hl]
    intro y hy
    rw [List.mem_cons, not_or]
    refine ⟨fun e => hx ?_, hseen y (List.mem_cons_of_mem _ hy)⟩
    rw [← e]
    exact List.mem_map_of_mem hy

/-- What is kept of a prefix is kept of the list. -/
theorem dedupBy_append_subset (seen : List κ) (l₁ l₂ : List α) :
    dedupBy key seen l₁ ⊆ dedupBy key seen (l₁ ++ l₂) := by
  induction l₁ generalizing seen with
  | nil => exact List.nil_subset _
  | cons x l₁ ih =>
    rw [List.cons_append, dedupBy, dedupBy]
    split_ifs
    · exact ih seen
    · exact List.cons_subset_cons x (ih _)

/-- Leaving out one key commutes with deduplication, whether or not that key counts as seen. -/
theorem dedupBy_filter_ne {seen seen' : List κ} (k : κ) (h : ∀ k', k' ≠ k → (k' ∈ seen ↔ k' ∈ seen'))
    (l : List α) : dedupBy key seen' (l.filter fun x => key x ≠ k) =
      (dedupBy key seen l).filter fun x => key x ≠ k := by
  induction l generalizing seen seen' with
  | nil => rfl
  | cons x l ih =>
    by_cases hx : key x = k
    · rw [List.filter_cons_of_neg (by simpa using hx), dedupBy]
      split_ifs
      · exact ih h
      · rw [List.filter_cons_of_neg (by simpa using hx)]
        refine ih fun k' hk' => ?_
        rw [List.mem_cons, hx, or_iff_right hk', h k' hk']
    · rw [List.filter_cons_of_pos (by simpa using hx), dedupBy, dedupBy]
      by_cases hs : key x ∈ seen
      · rw [if_pos hs, if_pos ((h _ hx).1 hs)]
        exact ih h
      · rw [if_neg hs, if_neg (fun hs' => hs ((h _ hx).2 hs')),
          List.filter_cons_of_pos (by simpa using hx)]
        refine congrArg _ (ih fun k' hk' => ?_)
        rw [List.mem_cons, List.mem_cons, h k' hk']

/-- Deduplication depends only on which keys of the list count as seen. -/
theorem dedupBy_congr_seen {seen seen' : List κ} {l : List α}
    (h : ∀ x ∈ l, key x ∈ seen ↔ key x ∈ seen') : dedupBy key seen l = dedupBy key seen' l := by
  induction l generalizing seen seen' with
  | nil => rfl
  | cons x l ih =>
    rw [List.forall_mem_cons] at h
    simp only [dedupBy, h.1]
    refine if_congr Iff.rfl (ih h.2) (congrArg _ (ih fun y hy => ?_))
    rw [List.mem_cons, List.mem_cons, h.2 y hy]

end Dedup

/-! ## Coverage and antichains -/

variable [Preorder π] (clock : α → π)

/-- Some version of the list has seen everything `c` has. -/
def Covers (l : List α) (c : π) : Prop := ∃ x ∈ l, c ≤ clock x

/-- No two versions of the list are comparable. -/
def Antichain (l : List α) : Prop := l.Pairwise fun x y => IncompRel (· ≤ ·) (clock x) (clock y)

/-- Every version of a list is below a maximal one. -/
theorem exists_maximal_ge {all : List α} {x : α} (hx : x ∈ all) :
    ∃ m ∈ all, clock x ≤ clock m ∧ ∀ y ∈ all, ¬ clock m < clock y := by
  have hfin : {c | ∃ y ∈ all, clock y = c}.Finite := (List.finite_toSet all).image clock
  obtain ⟨c, hc, ⟨m, hm, rfl⟩, hmax⟩ := hfin.exists_le_maximal ⟨x, hx, rfl⟩
  exact ⟨m, hm, hc, fun y hy h => h.not_ge (hmax ⟨y, hy, rfl⟩ h.le)⟩

/-- A version of the list that no other version of it supersedes. -/
def IsMaximal (l : List α) (x : α) : Prop := x ∈ l ∧ ∀ y ∈ l, ¬ clock x < clock y

variable {clock}

/-- Lists that consist of versions of another, up to equal clocks, and cover all of it have the same
maximal clocks. -/
theorem exists_isMaximal_of_covers {l m : List α} (hcov : ∀ y ∈ m, Covers clock l (clock y))
    (hfrom : ∀ x ∈ l, ∃ y ∈ m, AntisymmRel (· ≤ ·) (clock x) (clock y)) :
    (∀ x, IsMaximal clock l x →
      ∃ y, IsMaximal clock m y ∧ AntisymmRel (· ≤ ·) (clock x) (clock y)) ∧
    ∀ y, IsMaximal clock m y →
      ∃ x, IsMaximal clock l x ∧ AntisymmRel (· ≤ ·) (clock x) (clock y) := by
  constructor
  · rintro x ⟨hx, hmax⟩
    obtain ⟨y, hy, hxy⟩ := hfrom x hx
    refine ⟨y, ⟨hy, fun w hw hlt => ?_⟩, hxy⟩
    -- what is above `y` is covered by something above `x`
    obtain ⟨z, hz, hwz⟩ := hcov w hw
    exact hmax z hz (lt_of_le_of_lt hxy.1 (lt_of_lt_of_le hlt hwz))
  · rintro y ⟨hy, hmax⟩
    obtain ⟨x, hx, hyx⟩ := hcov y hy
    obtain ⟨w, hw, hxw⟩ := hfrom x hx
    have hxy : clock x ≤ clock y := by
      by_contra hnot
      exact hmax w hw (lt_of_le_not_ge (hyx.trans hxw.1) fun h => hnot (hxw.1.trans h))
    refine ⟨x, ⟨hx, fun z hz hlt => ?_⟩, hxy, hyx⟩
    obtain ⟨v, hv, hzv⟩ := hfrom z hz
    exact hmax v hv (lt_of_le_of_lt hyx (lt_of_lt_of_le hlt hzv.1))

theorem Antichain.sublist {l l' : List α} (h : Antichain clock l) (hs : l'.Sublist l) :
    Antichain clock l' :=
  List.Pairwise.sublist hs h

/-- No version of an antichain is below another. -/
theorem Antichain.not_lt {l : List α} (h : Antichain clock l) {x y : α} (hx : x ∈ l) (hy : y ∈ l) :
    ¬ clock x < clock y := by
  have sym : Std.Symm fun x y => ¬ clock x < clock y ∧ ¬ clock y < clock x :=
    ⟨fun _ _ h => ⟨h.2, h.1⟩⟩
  have hpair : l.Pairwise fun x y => ¬ clock x < clock y ∧ ¬ clock y < clock x :=
    h.imp fun h => ⟨fun hlt => h.1 hlt.le, fun hlt => h.2 hlt.le⟩
  exact (hpair.forall_of_forall (fun _ _ => ⟨lt_irrefl _, lt_irrefl _⟩) hx hy).1

/-! ## Tracking -/

variable (clock) in
/-- A list tracks `c` relative to a class of versions: it covers `c`, and a version of the list or
of the class that shares the key of the covering one covers `c` as well, so deduplication against
the class does not lose `c`. -/
def Tracks (key : α → κ) (T : α → Prop) (l : List α) (c : π) : Prop :=
  ∃ x ∈ l, c ≤ clock x ∧ ∀ y, y ∈ l ∨ T y → key y = key x → c ≤ clock y

theorem Tracks.covers {key : α → κ} {T : α → Prop} {l : List α} {c : π} (h : Tracks clock key T l c) :
    Covers clock l c := by
  obtain ⟨x, hx, hc, -⟩ := h
  exact ⟨x, hx, hc⟩

theorem Tracks.of_le {key : α → κ} {T : α → Prop} {l : List α} {c d : π} (h : Tracks clock key T l d)
    (hc : c ≤ d) : Tracks clock key T l c := by
  obtain ⟨x, hx, hd, hk⟩ := h
  exact ⟨x, hx, hc.trans hd, fun y hy e => hc.trans (hk y hy e)⟩

/-- A list of the class tracks its own versions. -/
theorem tracks_self {key : α → κ} {T : α → Prop} {l : List α}
    (faithful : ∀ x y, T x → T y → key y = key x → clock x ≤ clock y)
    (hl : ∀ x ∈ l, T x) {x : α} (hx : x ∈ l) : Tracks clock key T l (clock x) := by
  refine ⟨x, hx, le_rfl, ?_⟩
  rintro y (hy | hy) e
  · exact faithful x y (hl x hx) (hl y hy) e
  · exact faithful x y (hl x hx) hy e

/-! ## Joining new versions with old ones -/

section Join

variable [DecidableLT π] [DecidableEq κ] (clock) (key : α → κ)

/-- The old versions that no new version supersedes. -/
def retained (new old : List α) : List α := old.filter fun e => ¬ ∃ n ∈ new, clock e < clock n

/-- The new versions followed by the retained old ones, the first of each key. -/
def join (new old : List α) : List α := dedupBy key [] (new ++ retained clock new old)

variable {clock key} {new old : List α}

theorem mem_retained {e : α} :
    e ∈ retained clock new old ↔ e ∈ old ∧ ∀ n ∈ new, ¬ clock e < clock n := by
  simp [retained]

theorem mem_of_mem_join {x : α} (h : x ∈ join clock key new old) : x ∈ new ∨ x ∈ old := by
  rcases List.mem_append.1 ((dedupBy_sublist key [] _).subset h) with h | h
  · exact Or.inl h
  · exact Or.inr (mem_retained.1 h).1

theorem nodup_map_join : ((join clock key new old).map key).Nodup := nodup_map_dedupBy key _ _

/-- An old version that the join keeps is below no new one. -/
theorem not_lt_of_mem_join {x n : α} (h : x ∈ join clock key new old) (hx : x ∉ new)
    (hn : n ∈ new) : ¬ clock x < clock n := by
  rcases List.mem_append.1 ((dedupBy_sublist key [] _).subset h) with h | h
  · exact absurd h hx
  · exact (mem_retained.1 h).2 n hn

theorem mem_join_of_first {x : α} {l : List α} : x ∈ join clock key (x :: l) old := by
  rw [join, List.cons_append, dedupBy, if_neg List.not_mem_nil]
  exact List.mem_cons_self

/-- The versions of a join are told apart by their keys. -/
theorem eq_of_mem_join {x y : α} (hx : x ∈ join clock key new old) (hy : y ∈ join clock key new old)
    (h : key x = key y) : x = y :=
  List.inj_on_of_nodup_map nodup_map_join hx hy h

section

variable {T : α → Prop} (faithful : ∀ x y, T x → T y → key y = key x → clock x ≤ clock y)

include faithful

/-- A join tracks the new versions. -/
theorem tracks_join_new (hnew : ∀ x ∈ new, T x) {x : α} (hx : x ∈ new) :
    Tracks clock key T (join clock key new old) (clock x) := by
  obtain ⟨z, hz, e⟩ := exists_mem_dedupBy key [] hx List.not_mem_nil
  have hzn : z ∈ new := (dedupBy_sublist key _ _).subset hz
  have hzj : z ∈ join clock key new old := dedupBy_append_subset key _ _ _ hz
  refine ⟨z, hzj, faithful x z (hnew x hx) (hnew z hzn) e, ?_⟩
  rintro y (hy | hy) ey
  · rw [eq_of_mem_join hy hzj ey]
    exact faithful x z (hnew x hx) (hnew z hzn) e
  · exact faithful x y (hnew x hx) hy (ey.trans e)

/-- A join tracks what the old versions tracked: a covering version is superseded by a new one, or
it stays unless a version that prints alike displaces it. -/
theorem tracks_join_old (hnew : ∀ x ∈ new, T x) {c : π} (h : Tracks clock key T old c) :
    Tracks clock key T (join clock key new old) c := by
  obtain ⟨x, hx, hc, hk⟩ := h
  by_cases hsup : ∃ n ∈ new, clock x < clock n
  · obtain ⟨n, hn, hlt⟩ := hsup
    exact (tracks_join_new faithful hnew hn).of_le (hc.trans hlt.le)
  · simp only [not_exists, not_and] at hsup
    have hmem : x ∈ new ++ retained clock new old :=
      List.mem_append_right _ (mem_retained.2 ⟨hx, hsup⟩)
    obtain ⟨z, hz, e⟩ := exists_mem_dedupBy key [] hmem List.not_mem_nil
    have hzc : c ≤ clock z :=
      hk z ((mem_of_mem_join hz).elim (fun h => Or.inr (hnew z h)) Or.inl) e
    refine ⟨z, hz, hzc, ?_⟩
    rintro y (hy | hy) ey
    · rwa [eq_of_mem_join hy hz ey]
    · exact hk y (Or.inr hy) (ey.trans e)

end

/-- A join of antichains is an antichain when no new version is below an old one and comparable
versions share their key. -/
theorem antichain_join (hn : Antichain clock new) (ho : Antichain clock old)
    (hlt : ∀ n ∈ new, ∀ e ∈ old, ¬ clock n < clock e)
    (heq : ∀ n ∈ new, ∀ e ∈ old, AntisymmRel (· ≤ ·) (clock n) (clock e) → key n = key e) :
    Antichain clock (join clock key new old) := by
  have hr : Antichain clock (retained clock new old) := ho.sublist List.filter_sublist
  -- the only comparable pairs of the concatenation share a key, so deduplication splits them
  have pairs : (new ++ retained clock new old).Pairwise fun x y =>
      key x = key y ∨ IncompRel (· ≤ ·) (clock x) (clock y) := by
    refine List.pairwise_append.2 ⟨hn.imp Or.inr, hr.imp Or.inr, fun n hnm e he => ?_⟩
    obtain ⟨heo, hne⟩ := mem_retained.1 he
    by_cases h₁ : clock n ≤ clock e
    · by_cases h₂ : clock e ≤ clock n
      · exact Or.inl (heq n hnm e heo ⟨h₁, h₂⟩)
      · exact absurd (lt_of_le_not_ge h₁ h₂) (hlt n hnm e heo)
    · by_cases h₂ : clock e ≤ clock n
      · exact absurd (lt_of_le_not_ge h₂ h₁) (hne n hnm)
      · exact Or.inr ⟨h₁, h₂⟩
  have distinct : (join clock key new old).Pairwise fun x y => key x ≠ key y :=
    List.pairwise_map.1 nodup_map_join
  have kept := pairs.sublist (dedupBy_sublist key [] (new ++ retained clock new old))
  exact (distinct.and kept).imp fun h => h.2.resolve_left h.1

end Join

/-! ## Maximal versions -/

section Maximals

variable [DecidableLE π] [DecidableLT π] (clock)

/-- Extend `acc` by the versions of a list that no version of `all` supersedes, one for each
clock. -/
def maximalsAux (all acc : List α) : List α → List α
  | [] => acc
  | x :: l =>
    if ∃ y ∈ all, clock x < clock y then maximalsAux all acc l
    else if ∃ e ∈ acc, AntisymmRel (· ≤ ·) (clock x) (clock e) then maximalsAux all acc l
    else maximalsAux all (acc ++ [x]) l

/-- One version of each maximal clock of the list. -/
def maximals (all : List α) : List α := maximalsAux clock all [] all

variable {clock} {all : List α}

theorem subset_maximalsAux (acc l : List α) : acc ⊆ maximalsAux clock all acc l := by
  induction l generalizing acc with
  | nil => exact List.Subset.refl _
  | cons x l ih =>
    rw [maximalsAux]
    split_ifs
    · exact ih acc
    · exact ih acc
    · exact fun _ h => ih _ (List.mem_append_left _ h)

theorem mem_of_mem_maximalsAux {acc l : List α} {x : α} (h : x ∈ maximalsAux clock all acc l) :
    x ∈ acc ∨ (x ∈ l ∧ ∀ y ∈ all, ¬ clock x < clock y) := by
  induction l generalizing acc with
  | nil => exact Or.inl h
  | cons z l ih =>
    rw [maximalsAux] at h
    split_ifs at h with h1 h2
    · exact (ih h).imp_right fun h => ⟨List.mem_cons_of_mem _ h.1, h.2⟩
    · exact (ih h).imp_right fun h => ⟨List.mem_cons_of_mem _ h.1, h.2⟩
    · rcases ih h with h | h
      · rcases List.mem_append.1 h with h | h
        · exact Or.inl h
        · obtain rfl := List.mem_singleton.1 h
          simp only [not_exists, not_and] at h1
          exact Or.inr ⟨List.mem_cons_self, h1⟩
      · exact Or.inr ⟨List.mem_cons_of_mem _ h.1, h.2⟩

theorem exists_mem_maximalsAux {acc l : List α} {x : α} (hx : x ∈ l)
    (hmax : ∀ y ∈ all, ¬ clock x < clock y) :
    ∃ m ∈ maximalsAux clock all acc l, AntisymmRel (· ≤ ·) (clock x) (clock m) := by
  induction l generalizing acc with
  | nil => cases hx
  | cons z l ih =>
    rw [maximalsAux]
    rcases List.mem_cons.1 hx with rfl | hx
    · rw [if_neg (by simpa using hmax)]
      split_ifs with h
      · obtain ⟨e, he, heq⟩ := h
        exact ⟨e, subset_maximalsAux acc l he, heq⟩
      · exact ⟨x, subset_maximalsAux _ l (List.mem_append_right _ List.mem_cons_self),
          AntisymmRel.rfl⟩
    · split_ifs
      all_goals exact ih hx

theorem mem_of_mem_maximals {x : α} (h : x ∈ maximals clock all) :
    x ∈ all ∧ ∀ y ∈ all, ¬ clock x < clock y :=
  (mem_of_mem_maximalsAux h).resolve_left List.not_mem_nil

/-- Every maximal clock of the list is the clock of a version that is kept. -/
theorem exists_mem_maximals {x : α} (hx : x ∈ all) (hmax : ∀ y ∈ all, ¬ clock x < clock y) :
    ∃ m ∈ maximals clock all, AntisymmRel (· ≤ ·) (clock x) (clock m) :=
  exists_mem_maximalsAux hx hmax

/-- The maximal versions cover what the list covers. -/
theorem covers_maximals {c : π} (h : Covers clock all c) : Covers clock (maximals clock all) c := by
  obtain ⟨x, hx, hc⟩ := h
  obtain ⟨y, hy, hxy, hmax⟩ := exists_maximal_ge clock hx
  obtain ⟨m, hm, hym⟩ := exists_mem_maximals hy hmax
  exact ⟨m, hm, hc.trans (hxy.trans hym.1)⟩

/-- The versions kept so far stay pairwise incomparable. -/
theorem antichain_maximalsAux {acc l : List α} (hacc : Antichain clock acc)
    (hmax : ∀ x ∈ acc, x ∈ all ∧ ∀ y ∈ all, ¬ clock x < clock y) (hl : l ⊆ all) :
    Antichain clock (maximalsAux clock all acc l) := by
  induction l generalizing acc with
  | nil => exact hacc
  | cons x l ih =>
    obtain ⟨hx, hl⟩ := List.cons_subset.1 hl
    rw [maximalsAux]
    split_ifs with hsup hfound
    · exact ih hacc hmax hl
    · exact ih hacc hmax hl
    · simp only [not_exists, not_and] at hsup hfound
      refine ih (List.pairwise_append.2 ⟨hacc, List.pairwise_singleton _ _, fun e he y hy => ?_⟩)
        (fun y hy => ?_) hl
      · -- comparable maximal versions have equal clocks, and `x` equals none that is kept
        obtain rfl := List.mem_singleton.1 hy
        have hee := hmax e he
        refine ⟨fun hle => hfound e he ⟨?_, hle⟩, fun hle => hfound e he ⟨hle, ?_⟩⟩
        · by_contra hnot
          exact hee.2 y hx (lt_of_le_not_ge hle hnot)
        · by_contra hnot
          exact hsup e hee.1 (lt_of_le_not_ge hle hnot)
      · rcases List.mem_append.1 hy with hy | hy
        · exact hmax y hy
        · obtain rfl := List.mem_singleton.1 hy
          exact ⟨hx, hsup⟩

theorem antichain_maximals : Antichain clock (maximals clock all) :=
  antichain_maximalsAux List.Pairwise.nil (fun _ h => absurd h List.not_mem_nil)
    (List.Subset.refl _)

/-- Lists that cover each other have the same maximal clocks. -/
theorem exists_mem_maximals_of_covers {l m : List α} (hlm : ∀ x ∈ l, Covers clock m (clock x))
    (hml : ∀ y ∈ m, Covers clock l (clock y)) {x : α} (hx : x ∈ maximals clock l) :
    ∃ y ∈ maximals clock m, AntisymmRel (· ≤ ·) (clock x) (clock y) := by
  obtain ⟨hxl, hmax⟩ := mem_of_mem_maximals hx
  obtain ⟨y, hy, hxy⟩ := covers_maximals (hlm x hxl)
  obtain ⟨z, hz, hyz⟩ := hml y (mem_of_mem_maximals hy).1
  refine ⟨y, hy, hxy, ?_⟩
  by_contra hnot
  exact hmax z hz (lt_of_lt_of_le (lt_of_le_not_ge hxy hnot) hyz)

end Maximals

end Lib.Versions
