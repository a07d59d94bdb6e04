import GoQuorum.Lib.Bytes
import Mathlib.Data.List.DropRight

/-!
# Slash-separated paths

`Clean`, `Join`, `Dir` and `Base` on paths with slashes, after Go's `path/filepath` on Unix.
`resolve cwd p` is the place in a tree of directories without links to which a path leads, as the
list of names from the root.  Cleaning a path does not change where it leads (`resolve_clean`).  A
rooted path that has been cleaned has no `..`, so joined to a directory it leads to a place below it
(`resolve_join_rooted`).
-/

namespace Lib.Paths

def slash : UInt8 := 47
def dot : Bytes := [46]
def dotDot : Bytes := [46, 46]

/-- The components of a path, without empty ones and dots. -/
def components (p : Bytes) : List Bytes :=
  (p.splitOn slash).filter fun c => c ≠ [] ∧ c ≠ dot

def isRooted (p : Bytes) : Bool := p.head? = some slash

/-- What `Clean` does with the next component; the stack has the last one on top. -/
def push (rooted : Bool) (stack : List Bytes) (c : Bytes) : List Bytes :=
  if c = dotDot then
    match stack with
    | [] => if rooted then [] else [dotDot]
    | top :: rest => if top = dotDot then dotDot :: top :: rest else rest
  else c :: stack

def cleaned (p : Bytes) : List Bytes := ((components p).foldl (push (isRooted p)) []).reverse

def render (rooted : Bool) (cs : List Bytes) : Bytes :=
  if rooted then slash :: [slash].intercalate cs
  else if cs = [] then dot else [slash].intercalate cs

/-- `Clean`. -/
def clean (p : Bytes) : Bytes := render (isRooted p) (cleaned p)

/-- `Join` of two elements; empty ones are ignored. -/
def join (d e : Bytes) : Bytes :=
  if d = [] then if e = [] then [] else clean e else clean (d ++ slash :: e)

/-- `Dir`: what stands before the last element. -/
def dir (p : Bytes) : Bytes := clean (p.rdropWhile (· ≠ slash))

/-- `Base`: the last element. -/
def base (p : Bytes) : Bytes :=
  if p = [] then dot
  else
    let b := (p.rdropWhile (· = slash)).rtakeWhile (· ≠ slash)
    if b = [] then [slash] else b

/-- One step down to a name, or up. -/
def walk (pos : List Bytes) (c : Bytes) : List Bytes :=
  if c = dotDot then pos.dropLast else pos ++ [c]

/-- The directory in which a path begins. -/
def origin (cwd : List Bytes) (p : Bytes) : List Bytes := if isRooted p then [] else cwd

/-- The place to which a path leads. -/
def resolve (cwd : List Bytes) (p : Bytes) : List Bytes :=
  (components p).foldl walk (origin cwd p)

/-! ## Components -/

/-- What can be a component. -/
def IsPart (c : Bytes) : Prop := c ≠ [] ∧ c ≠ dot ∧ slash ∉ c

/-- What can be the name of a file. -/
def IsName (c : Bytes) : Prop := IsPart c ∧ c ≠ dotDot

instance (c : Bytes) : Decidable (IsPart c) := inferInstanceAs (Decidable (_ ∧ _ ∧ _))

instance (c : Bytes) : Decidable (IsName c) := inferInstanceAs (Decidable (_ ∧ _))

theorem slash_notMem_of_mem_splitOn {p c : Bytes} (h : c ∈ p.splitOn slash) : slash ∉ c := by
  induction p generalizing c with
  | nil =>
    rw [List.splitOn_nil, List.mem_singleton] at h
    rw [h]
    exact List.not_mem_nil
  | cons b p ih =>
    rw [List.splitOn_cons_eq_if_modifyHead] at h
    split_ifs at h with hb
    · rcases List.mem_cons.1 h with rfl | h
      · exact List.not_mem_nil
      · exact ih h
    · cases hsplit : p.splitOn slash with
      | nil => exact absurd hsplit (List.splitOn_ne_nil _ _)
      | cons d ds =>
        rw [hsplit] at ih
        rw [hsplit, List.modifyHead_cons] at h
        rcases List.mem_cons.1 h with rfl | h
        · rw [List.mem_cons, not_or]
          exact ⟨fun heq => hb (by rw [heq]; exact beq_self_eq_true b), ih List.mem_cons_self⟩
        · exact ih (List.mem_cons_of_mem _ h)

theorem isPart_of_mem_components {p c : Bytes} (h : c ∈ components p) : IsPart c := by
  obtain ⟨hmem, hc⟩ := List.mem_filter.1 h
  have hne := of_decide_eq_true hc
  exact ⟨hne.1, hne.2, slash_notMem_of_mem_splitOn hmem⟩

theorem components_append (p q : Bytes) :
    components (p ++ slash :: q) = components p ++ components q := by
  unfold components
  rw [List.splitOn_append_cons_self, List.filter_append]

theorem components_cons_slash (p : Bytes) : components (slash :: p) = components p :=
  components_append [] p

theorem components_intercalate {cs : List Bytes} (h : ∀ c ∈ cs, IsPart c) :
    components ([slash].intercalate cs) = cs := by
  by_cases hnil : cs = []
  · subst hnil
    decide
  · unfold components
    rw [List.splitOn_intercalate slash (fun c hc => (h c hc).2.2) hnil, List.filter_eq_self]
    exact fun c hc => decide_eq_true ⟨(h c hc).1, (h c hc).2.1⟩

theorem components_of_isPart {c : Bytes} (h : IsPart c) : components c = [c] := by
  have hone : components ([slash].intercalate [c]) = [c] :=
    components_intercalate (List.forall_mem_singleton.2 h)
  rwa [List.intercalate_singleton] at hone

/-! ## Cleaning -/

theorem push_of_ne {rooted : Bool} {c : Bytes} (h : c ≠ dotDot) (stack : List Bytes) :
    push rooted stack c = c :: stack := if_neg h

theorem push_dotDot_nil (rooted : Bool) :
    push rooted [] dotDot = if rooted then [] else [dotDot] := if_pos rfl

theorem push_dotDot_cons (rooted : Bool) (top : Bytes) (rest : List Bytes) :
    push rooted (top :: rest) dotDot =
      if top = dotDot then dotDot :: top :: rest else rest := if_pos rfl

theorem isPart_of_mem_push {rooted : Bool} {stack : List Bytes} {c : Bytes} (hc : IsPart c)
    (h : ∀ x ∈ stack, IsPart x) : ∀ x ∈ push rooted stack c, IsPart x := by
  by_cases hdots : c = dotDot
  · subst hdots
    cases stack with
    | nil =>
      rw [push_dotDot_nil]
      split_ifs
      · exact h
      · exact List.forall_mem_singleton.2 hc
    | cons top rest =>
      rw [push_dotDot_cons]
      split_ifs
      · exact List.forall_mem_cons.2 ⟨hc, h⟩
      · exact (List.forall_mem_cons.1 h).2
  · rw [push_of_ne hdots]
    exact List.forall_mem_cons.2 ⟨hc, h⟩

theorem isPart_of_mem_cleaned (p : Bytes) : ∀ c ∈ cleaned p, IsPart c := by
  intro c hc
  have hstack : ∀ x ∈ (components p).foldl (push (isRooted p)) [], IsPart x := by
    refine List.foldlRecOn (motive := fun stack => ∀ x ∈ stack, IsPart x) _ _
      (fun x hx => ?_) fun stack h c hc => isPart_of_mem_push (isPart_of_mem_components hc) h
    cases hx
  exact hstack c (List.mem_reverse.1 hc)

/-- A rooted path has no place above its beginning. -/
theorem dotDot_notMem_cleaned {p : Bytes} (h : isRooted p = true) : dotDot ∉ cleaned p := by
  unfold cleaned
  rw [List.mem_reverse, h]
  refine List.foldlRecOn (motive := fun stack => dotDot ∉ stack) _ _ List.not_mem_nil
    fun stack hstack c _ => ?_
  by_cases hdots : c = dotDot
  · subst hdots
    cases stack with
    | nil => exact List.not_mem_nil
    | cons top rest =>
      rw [List.mem_cons, not_or] at hstack
      rw [push_dotDot_cons, if_neg (Ne.symm hstack.1)]
      exact hstack.2
  · rw [push_of_ne hdots, List.mem_cons, not_or]
    exact ⟨Ne.symm hdots, hstack⟩

theorem isName_of_mem_cleaned {p : Bytes} (h : isRooted p = true) : ∀ c ∈ cleaned p, IsName c :=
  fun c hc => ⟨isPart_of_mem_cleaned p c hc, fun heq => dotDot_notMem_cleaned h (heq ▸ hc)⟩

theorem components_render {rooted : Bool} {cs : List Bytes} (h : ∀ c ∈ cs, IsPart c) :
    components (render rooted cs) = cs := by
  unfold render
  split_ifs with hroot hnil
  · rw [components_cons_slash, components_intercalate h]
  · subst hnil
    decide
  · exact components_intercalate h

theorem isRooted_render {rooted : Bool} {cs : List Bytes} (h : ∀ c ∈ cs, IsPart c) :
    isRooted (render rooted cs) = rooted := by
  unfold render isRooted
  cases rooted with
  | true => rfl
  | false =>
    rw [if_neg Bool.false_ne_true]
    cases cs with
    | nil => decide
    | cons c cs =>
      obtain ⟨⟨hne, -, hslash⟩, -⟩ := List.forall_mem_cons.1 h
      rw [if_neg (List.cons_ne_nil _ _)]
      cases c with
      | nil => exact absurd rfl hne
      | cons b c =>
        have hhead : ([slash].intercalate ((b :: c) :: cs)).head? = some b := by
          cases cs <;> simp [List.intercalate]
        rw [hhead, decide_eq_false_iff_not, Option.some.injEq]
        exact fun heq => hslash (heq ▸ List.mem_cons_self)

theorem components_clean (p : Bytes) : components (clean p) = cleaned p :=
  components_render (isPart_of_mem_cleaned p)

theorem isRooted_clean (p : Bytes) : isRooted (clean p) = isRooted p :=
  isRooted_render (isPart_of_mem_cleaned p)

theorem clean_ne_nil (p : Bytes) : clean p ≠ [] := by
  intro hnil
  have hcomp := components_clean p
  have hroot := isRooted_clean p
  rw [hnil] at hcomp hroot
  rw [clean, ← hcomp, ← hroot] at hnil
  revert hnil
  decide

/-! ## Where paths lead -/

/-- The stack of `Clean` leads where the components that are done lead. -/
theorem foldl_walk_push {rooted : Bool} {start : List Bytes} (hstart : rooted = true → start = [])
    (stack : List Bytes) (c : Bytes) :
    (push rooted stack c).reverse.foldl walk start = walk (stack.reverse.foldl walk start) c := by
  by_cases hdots : c = dotDot
  · subst hdots
    cases stack with
    | nil =>
      cases rooted with
      | true =>
        rw [hstart rfl]
        rfl
      | false => rfl
    | cons top rest =>
      rw [push_dotDot_cons]
      split_ifs with htop
      · rw [List.reverse_cons, List.foldl_append, List.foldl_cons, List.foldl_nil]
      · -- a name and the step up from it cancel out
        rw [List.reverse_cons, List.foldl_append, List.foldl_cons, List.foldl_nil, walk, if_pos rfl,
          walk, if_neg htop, List.dropLast_concat]
  · rw [push_of_ne hdots, List.reverse_cons, List.foldl_append, List.foldl_cons, List.foldl_nil]

theorem foldl_walk_cleaned (cwd : List Bytes) (p : Bytes) :
    (cleaned p).foldl walk (origin cwd p) = resolve cwd p := by
  have hstart : isRooted p = true → origin cwd p = [] := fun h => by rw [origin, if_pos h]
  have hloop : ∀ (cs stack : List Bytes),
      (cs.foldl (push (isRooted p)) stack).reverse.foldl walk (origin cwd p) =
        cs.foldl walk (stack.reverse.foldl walk (origin cwd p)) := by
    intro cs
    induction cs with
    | nil => exact fun _ => rfl
    | cons c cs ih =>
      intro stack
      rw [List.foldl_cons, ih, foldl_walk_push hstart, List.foldl_cons]
  exact hloop (components p) []

/-- Cleaning a path does not change where it leads. -/
theorem resolve_clean (cwd : List Bytes) (p : Bytes) : resolve cwd (clean p) = resolve cwd p := by
  rw [← foldl_walk_cleaned cwd p, resolve, components_clean, origin, isRooted_clean]
  rfl

theorem foldl_walk_names {names : List Bytes} (h : ∀ c ∈ names, IsName c) (pos : List Bytes) :
    names.foldl walk pos = pos ++ names := by
  induction names generalizing pos with
  | nil => exact (List.append_nil pos).symm
  | cons c names ih =>
    obtain ⟨hc, hnames⟩ := List.forall_mem_cons.1 h
    rw [List.foldl_cons, ih hnames, walk, if_neg hc.2, List.append_assoc, List.singleton_append]

theorem resolve_append {d : Bytes} (hd : d ≠ []) (cwd : List Bytes) (e : Bytes) :
    resolve cwd (d ++ slash :: e) = (components e).foldl walk (resolve cwd d) := by
  have hroot : isRooted (d ++ slash :: e) = isRooted d := by
    cases d with
    | nil => exact absurd rfl hd
    | cons b d => rfl
  rw [resolve, components_append, List.foldl_append, origin, hroot]
  rfl

theorem resolve_join {d : Bytes} (hd : d ≠ []) (cwd : List Bytes) (e : Bytes) :
    resolve cwd (join d e) = (components e).foldl walk (resolve cwd d) := by
  rw [join, if_neg hd, resolve_clean, resolve_append hd]

/-- A cleaned rooted path leads to a place below the directory it is joined to. -/
theorem resolve_join_rooted {d : Bytes} (hd : d ≠ []) (cwd : List Bytes) (p : Bytes) :
    resolve cwd (join d (clean (slash :: p))) = resolve cwd d ++ cleaned (slash :: p) := by
  rw [resolve_join hd, components_clean, foldl_walk_names (isName_of_mem_cleaned rfl)]

/-! ## The shape of clean paths -/

/-- Steps up and then names; a rooted path has no steps up. -/
def Shaped (rooted : Bool) (cs : List Bytes) : Prop :=
  ∃ k names, cs = List.replicate k dotDot ++ names ∧ (rooted = true → k = 0) ∧ ∀ c ∈ names, IsName c

theorem shaped_push {rooted : Bool} {stack : List Bytes} {c : Bytes} (hc : IsPart c)
    (h : Shaped rooted stack.reverse) : Shaped rooted (push rooted stack c).reverse := by
  obtain ⟨k, names, heq, hk, hnames⟩ := h
  by_cases hdots : c = dotDot
  · subst hdots
    rcases names.eq_nil_or_concat' with rfl | ⟨names, top, rfl⟩
    · -- only steps up so far
      rw [List.append_nil] at heq
      have hstack : stack = List.replicate k dotDot := by
        rw [← List.reverse_reverse stack, heq, List.reverse_replicate]
      subst hstack
      cases k with
      | zero =>
        rw [List.replicate_zero, push_dotDot_nil]
        split_ifs with hroot
        · exact ⟨0, [], rfl, fun _ => rfl, fun c hc => nomatch hc⟩
        · exact ⟨1, [], rfl, fun h => absurd h hroot, fun c hc => nomatch hc⟩
      | succ k =>
        rw [List.replicate_succ, push_dotDot_cons, if_pos rfl, ← List.replicate_succ,
          ← List.replicate_succ, List.reverse_replicate]
        exact ⟨k + 2, [], (List.append_nil _).symm, fun h => absurd (hk h) (by omega),
          fun c hc => nomatch hc⟩
    · -- the step up takes the last name away
      have hstack : stack = top :: (List.replicate k dotDot ++ names).reverse := by
        rw [← List.reverse_reverse stack, heq, ← List.append_assoc, List.reverse_concat]
      have htop : IsName top := hnames top (List.mem_append_right _ List.mem_cons_self)
      rw [hstack, push_dotDot_cons, if_neg htop.2, List.reverse_reverse]
      exact ⟨k, names, rfl, hk, fun c hc => hnames c (List.mem_append_left _ hc)⟩
  · rw [push_of_ne hdots, List.reverse_cons, heq, List.append_assoc]
    refine ⟨k, names ++ [c], rfl, hk, fun x hx => ?_⟩
    rcases List.mem_append.1 hx with hx | hx
    · exact hnames x hx
    · rw [List.mem_singleton.1 hx]
      exact ⟨hc, hdots⟩

theorem shaped_cleaned (p : Bytes) : Shaped (isRooted p) (cleaned p) := by
  refine List.foldlRecOn (motive := fun stack : List Bytes => Shaped (isRooted p) stack.reverse) _ _ ?_
    fun stack h c hc => shaped_push (isPart_of_mem_components hc) h
  exact ⟨0, [], rfl, fun _ => rfl, fun c hc => nomatch hc⟩

theorem foldl_walk_replicate (k : ℕ) (pos : List Bytes) :
    (List.replicate k dotDot).foldl walk pos = pos.take (pos.length - k) := by
  induction k generalizing pos with
  | zero => rw [Nat.sub_zero, List.take_length]; rfl
  | succ k ih =>
    rw [List.replicate_succ, List.foldl_cons, ih, walk, if_pos rfl, List.length_dropLast,
      List.dropLast_eq_take, List.take_take]
    congr 1
    omega

/-! ## The last element -/

/-- What can stand before the last element. -/
def EndsInSlash (q : Bytes) : Prop := q = [] ∨ ∃ r, q = r ++ [slash]

theorem EndsInSlash.cons {q : Bytes} (hq : EndsInSlash q) : EndsInSlash (slash :: q) := by
  rcases hq with rfl | ⟨r, rfl⟩
  · exact Or.inr ⟨[], rfl⟩
  · exact Or.inr ⟨slash :: r, rfl⟩

theorem head_reverse_of_endsInSlash {q : Bytes} (hq : EndsInSlash q) :
    ∀ b ∈ q.reverse.head?, b = slash := by
  rcases hq with rfl | ⟨r, rfl⟩
  · intro b hb
    cases hb
  · rw [List.reverse_append]
    intro b hb
    cases hb
    rfl

theorem rdropWhile_append_name {q n : Bytes} (hq : EndsInSlash q) (hn : slash ∉ n) :
    (q ++ n).rdropWhile (· ≠ slash) = q := by
  have hdrop : q.reverse.dropWhile (fun b => decide (b ≠ slash)) = q.reverse := by
    cases hrev : q.reverse with
    | nil => rfl
    | cons b bs =>
      have hb : b = slash := head_reverse_of_endsInSlash hq b (by rw [hrev]; rfl)
      rw [List.dropWhile_cons_of_neg (by simp [hb])]
  unfold List.rdropWhile
  rw [List.reverse_append, List.dropWhile_append_of_pos, hdrop, List.reverse_reverse]
  intro b hb
  exact decide_eq_true fun heq => hn (heq ▸ List.mem_reverse.1 hb)

theorem components_append_part {q c : Bytes} (hq : EndsInSlash q) (hc : IsPart c) :
    components (q ++ c) = components q ++ [c] := by
  rcases hq with rfl | ⟨r, rfl⟩
  · exact components_of_isPart hc
  · rw [List.append_assoc, List.singleton_append, components_append, components_append r [],
      components_of_isPart hc, List.append_assoc]
    rfl

theorem isRooted_append_part {q c : Bytes} (hq : EndsInSlash q) (hc : IsPart c) :
    isRooted (q ++ c) = isRooted q := by
  cases q with
  | nil =>
    cases c with
    | nil => rfl
    | cons b c =>
      have hb : ¬(b = slash) := fun heq => hc.2.2 (heq ▸ List.mem_cons_self)
      simp [isRooted, hb]
  | cons b q => rfl

theorem exists_intercalate_concat (cs : List Bytes) (n : Bytes) :
    ∃ q, EndsInSlash q ∧ [slash].intercalate (cs ++ [n]) = q ++ n := by
  induction cs with
  | nil => exact ⟨[], Or.inl rfl, List.intercalate_singleton⟩
  | cons c cs ih =>
    obtain ⟨q, hq, heq⟩ := ih
    refine ⟨c ++ slash :: q, Or.inr ?_, ?_⟩
    · rcases hq with rfl | ⟨r, rfl⟩
      · exact ⟨c, rfl⟩
      · exact ⟨c ++ slash :: r, by rw [List.append_assoc, List.cons_append]⟩
    · rw [List.cons_append, List.intercalate_cons_of_ne_nil (by simp), heq, List.append_assoc,
        List.append_assoc, List.singleton_append, List.cons_append]

/-- The directory of a clean path is where all components but the last lead. -/
theorem resolve_dir_clean (cwd : List Bytes) (p : Bytes) :
    resolve cwd (dir (clean p)) = (cleaned p).dropLast.foldl walk (origin cwd p) := by
  have hparts := isPart_of_mem_cleaned p
  have hroot := isRooted_clean p
  have hcomp := components_clean p
  rcases (cleaned p).eq_nil_or_concat' with hnil | ⟨cs, c, heq⟩
  · rw [hnil, clean, hnil, List.dropLast_nil, List.foldl_nil, origin]
    cases isRooted p with
    | true => rfl
    | false => rfl
  · rw [heq] at hparts hcomp
    have hc : IsPart c := hparts c (List.mem_append_right _ List.mem_cons_self)
    obtain ⟨q, hq, hqc⟩ : ∃ q, EndsInSlash q ∧ clean p = q ++ c := by
      obtain ⟨q, hq, hqc⟩ := exists_intercalate_concat cs c
      rw [clean, heq, render, if_neg (by simp : ¬cs ++ [c] = []), hqc]
      split_ifs
      · exact ⟨slash :: q, hq.cons, rfl⟩
      · exact ⟨q, hq, rfl⟩
    have hdir : dir (clean p) = clean q := by rw [hqc, dir, rdropWhile_append_name hq hc.2.2]
    have hcs : components q = cs := by
      rw [hqc] at hcomp
      exact List.append_cancel_right ((components_append_part hq hc).symm.trans hcomp)
    have horigin : origin cwd q = origin cwd p := by
      rw [origin, origin, ← hroot, hqc, isRooted_append_part hq hc]
    rw [hdir, resolve_clean, resolve, hcs, horigin, heq, List.dropLast_concat]

/-- A clean path leads into its directory, or its directory is above the place one starts from. -/
theorem resolve_dir_clean_cases (cwd : List Bytes) (p : Bytes) :
    (∃ c, resolve cwd p = resolve cwd (dir (clean p)) ++ [c]) ∨
      resolve cwd (dir (clean p)) <+: cwd := by
  rw [resolve_dir_clean, ← foldl_walk_cleaned]
  obtain ⟨k, names, heq, hk, hnames⟩ := shaped_cleaned p
  rw [heq]
  rcases names.eq_nil_or_concat' with rfl | ⟨names, c, rfl⟩
  · right
    have horigin : origin cwd p <+: cwd := by
      unfold origin
      split_ifs
      · exact List.nil_prefix
      · exact List.prefix_refl _
    rw [List.append_nil, List.dropLast_replicate, foldl_walk_replicate]
    exact List.IsPrefix.trans ( List.take_prefix _ _) horigin
  · left
    refine ⟨c, ?_⟩
    have hc : IsName c := hnames c (List.mem_append_right _ List.mem_cons_self)
    rw [← List.append_assoc, List.dropLast_concat, List.foldl_concat, walk, if_neg hc.2]

end Lib.Paths
