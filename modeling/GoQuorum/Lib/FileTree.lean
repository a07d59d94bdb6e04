import GoQuorum.Lib.Paths

/-!
# A tree of files

Directories, files and symbolic links.  A place is the list of names from the root.  What stands in
a directory is there only as long as the directory is, so nodes are added through `FileTree.add`,
which checks it.  A file may stand at several places (hard links), so a place has only its number.

`follow` goes along a path, through links.  `mkdirAll` and `createFile` are `os.MkdirAll` and
`os.OpenFile` followed by the copying of the content.  Calls may be refused, and writing a file may
stop half way.  Where no link is on the way, paths lead where their components say, and the calls
change nothing but what they name.
-/

namespace Lib

open Paths

inductive FileNode where
  | dir (mode : ℕ)
  | file (inode : ℕ)
  | link (target : Bytes)
deriving DecidableEq

/-- The number of a file is one that has been given out. -/
def FileNode.Fits (next : ℕ) : FileNode → Prop
  | .file inode => inode < next
  | .dir _ | .link _ => True

instance (next : ℕ) : (n : FileNode) → Decidable (n.Fits next)
  | .file inode => inferInstanceAs (Decidable (inode < next))
  | .dir _ | .link _ => inferInstanceAs (Decidable True)

/-- The nodes, and the permissions and the contents of the files. -/
structure FileTree where
  node : List Bytes → Option FileNode
  inodes : ℕ → ℕ × Bytes
  next : ℕ
  root : ∃ mode, node [] = some (.dir mode)
  parent : ∀ pos name, node (pos ++ [name]) ≠ none → ∃ mode, node pos = some (.dir mode)
  fits : ∀ pos n, node pos = some n → n.Fits next

/-- What can be seen at a place. -/
inductive FileView where
  | dir (mode : ℕ)
  | file (mode : ℕ) (content : Bytes)
  | link (target : Bytes)
deriving DecidableEq

def FileNode.view (inodes : ℕ → ℕ × Bytes) : FileNode → FileView
  | .dir mode => .dir mode
  | .file inode => .file (inodes inode).1 (inodes inode).2
  | .link target => .link target

/-- Why a call fails. -/
inductive FileFault where
  | notFound
  | notDir
  | isDir
  | alreadyExists
  | loop
  | refused
  | short
deriving DecidableEq

/-- A process: its directory, its umask, the calls that are refused because of their place, and the
files of which only some bytes can be written. -/
structure FileEnv where
  cwd : List Bytes
  umask : ℕ
  refuses : List Bytes → Bool
  short : List Bytes → Option ℕ

/-- The permissions of what a process creates. -/
def FileEnv.perm (env : FileEnv) (mode : ℕ) : ℕ := mode &&& 511 &&& (511 ^^^ (env.umask &&& 511))

/-- What can be written of a content, and the error. -/
def FileEnv.copied (env : FileEnv) (place : List Bytes) (content : Bytes) :
    Option FileFault × Bytes :=
  match env.short place with
  | some k => (some .short, content.take k)
  | none => (none, content)

/-- How many links the kernel follows on one path. -/
def maxLinks : ℕ := 40

namespace FileTree

variable {t t' : FileTree} {env : FileEnv} {pos : List Bytes} {name : Bytes}

def view (t : FileTree) (pos : List Bytes) : Option FileView := (t.node pos).map (·.view t.inodes)

def isDir (t : FileTree) (pos : List Bytes) : Bool :=
  match t.node pos with
  | some (.dir _) => true
  | _ => false

theorem isDir_iff : t.isDir pos = true ↔ ∃ mode, t.node pos = some (.dir mode) := by
  unfold isDir
  split <;> simp_all

/-- The tree that has nothing but its root. -/
def empty : FileTree where
  node := fun pos => if pos = [] then some (.dir 493) else none
  inodes := fun _ => (0, [])
  next := 0
  root := ⟨493, rfl⟩
  parent := fun pos name h => absurd (if_neg (List.append_ne_nil_of_right_ne_nil pos
    (List.cons_ne_nil name []))) h
  fits := fun pos n h => by
    split_ifs at h
    cases h
    trivial

/-- Put a node into a directory, unless a directory is in its place. -/
def add (t : FileTree) (pos : List Bytes) (name : Bytes) (new : FileNode) : FileTree :=
  if h : (t.isDir pos = true ∧ t.isDir (pos ++ [name]) = false) ∧ new.Fits t.next then
    { node := Function.update t.node (pos ++ [name]) (some new)
      inodes := t.inodes
      next := t.next
      root := by
        rw [Function.update_of_ne (by simp)]
        exact t.root
      parent := by
        intro p n hn
        by_cases hp : p = pos ++ [name]
        · -- nothing stands in what is not a directory
          rw [hp, Function.update_of_ne (by simp)] at hn
          have hdir := isDir_iff.2 (t.parent _ _ hn)
          rw [h.1.2] at hdir
          cases hdir
        · rw [Function.update_of_ne hp]
          by_cases heq : p ++ [n] = pos ++ [name]
          · rw [(List.append_inj' heq rfl).1]
            exact isDir_iff.1 h.1.1
          · rw [Function.update_of_ne heq] at hn
            exact t.parent p n hn
      fits := by
        intro p n hn
        by_cases hp : p = pos ++ [name]
        · rw [hp, Function.update_self] at hn
          exact Option.some.inj hn ▸ h.2
        · rw [Function.update_of_ne hp] at hn
          exact t.fits p n hn }
  else t

/-- The next file, which does not stand anywhere yet. -/
def alloc (t : FileTree) (mode : ℕ) (content : Bytes) : FileTree :=
  { t with
    inodes := Function.update t.inodes t.next (mode, content)
    next := t.next + 1
    fits := fun pos n h => by
      have hfits := t.fits pos n h
      cases n with
      | file inode => exact Nat.lt_succ_of_lt hfits
      | dir mode => trivial
      | link target => trivial }

/-- Create a file. -/
def addFile (t : FileTree) (pos : List Bytes) (name : Bytes) (mode : ℕ) (content : Bytes) :
    FileTree :=
  (t.alloc mode content).add pos name (.file t.next)

/-- Write over a file, at whatever places it stands. -/
def write (t : FileTree) (inode : ℕ) (content : Bytes) : FileTree :=
  { t with inodes := Function.update t.inodes inode ((t.inodes inode).1, content) }

/-! ## Paths -/

/-- Along the components of a path, until the first link: what `next` makes of it. -/
def followWith (t : FileTree) (left : ℕ)
    (next : List Bytes → List Bytes → Except FileFault (List Bytes × ℕ)) :
    List Bytes → List Bytes → Except FileFault (List Bytes × ℕ)
  | pos, [] => .ok (pos, left)
  | pos, c :: cs =>
    if c = dotDot then followWith t left next pos.dropLast cs
    else
      match t.node (pos ++ [c]) with
      | some (.dir _) => followWith t left next (pos ++ [c]) cs
      | some (.link target) => next (origin pos target) (components target ++ cs)
      | some (.file _) => if cs = [] then .ok (pos ++ [c], left) else .error .notDir
      | none => if cs = [] then .ok (pos ++ [c], left) else .error .notFound

/-- The place to which a path leads, through at most so many links, and how many are left then.  What
stands before the last component has to be there. -/
def follow (t : FileTree) : ℕ → List Bytes → List Bytes → Except FileFault (List Bytes × ℕ)
  | 0 => followWith t 0 fun _ _ => .error .loop
  | left + 1 => followWith t (left + 1) (follow t left)

/-- The place of a path. -/
def locate (env : FileEnv) (t : FileTree) (path : Bytes) : Except FileFault (List Bytes) :=
  if path = [] then .error .notFound
  else (t.follow maxLinks (origin env.cwd path) (components path)).map Prod.fst

/-- `MkdirAll` along the components of a path. -/
def mkdirs (env : FileEnv) (mode : ℕ) : ℕ → FileTree → List Bytes → List Bytes →
    Option FileFault × FileTree
  | _, t, _, [] => (none, t)
  | left, t, pos, c :: cs =>
    if c = dotDot then mkdirs env mode left t pos.dropLast cs
    else
      match t.node (pos ++ [c]) with
      | some (.dir _) => mkdirs env mode left t (pos ++ [c]) cs
      | some (.file _) => (some .notDir, t)
      | some (.link _) =>
        match t.follow left pos [c] with
        | .error fault => (some fault, t)
        | .ok (place, left) =>
          match t.node place with
          | some (.dir _) => mkdirs env mode left t place cs
          | some _ => (some .notDir, t)
          | none => (some .alreadyExists, t)
      | none =>
        if env.refuses (pos ++ [c]) then (some .refused, t)
        else mkdirs env mode left (t.add pos c (.dir (env.perm mode))) (pos ++ [c]) cs

/-- `os.MkdirAll`. -/
def mkdirAll (env : FileEnv) (t : FileTree) (path : Bytes) (mode : ℕ) : Option FileFault × FileTree :=
  if path = [] then (some .notFound, t)
  else mkdirs env mode maxLinks t (origin env.cwd path) (components path)

/-- `os.OpenFile` to create or truncate a file, and the copying of its content. -/
def createFile (env : FileEnv) (t : FileTree) (path : Bytes) (mode : ℕ) (content : Bytes) :
    Option FileFault × FileTree :=
  match t.locate env path with
  | .error fault => (some fault, t)
  | .ok place =>
    match place.getLast? with
    | none => (some .isDir, t)
    | some name =>
      if env.refuses place then (some .refused, t)
      else
        let (fault, written) := env.copied place content
        match t.node place with
        | some (.dir _) => (some .isDir, t)
        | some (.link _) => (some .loop, t)
        | some (.file inode) => (fault, t.write inode written)
        | none =>
          if t.isDir place.dropLast then
            (fault, t.addFile place.dropLast name (env.perm mode) written)
          else (some .notFound, t)

/-- `os.ReadFile`. -/
def readFile (env : FileEnv) (t : FileTree) (path : Bytes) : Except FileFault Bytes :=
  match t.locate env path with
  | .error fault => .error fault
  | .ok place =>
    if env.refuses place then .error .refused
    else
      match t.view place with
      | some (.file _ content) => .ok content
      | some (.dir _) => .error .isDir
      | some (.link _) => .error .loop
      | none => .error .notFound

/-- `os.Stat`. -/
def stat (env : FileEnv) (t : FileTree) (path : Bytes) : Except FileFault FileView :=
  match t.locate env path with
  | .error fault => .error fault
  | .ok place =>
    match t.view place with
    | some v => .ok v
    | none => .error .notFound

/-- The directory of the last component of a path, and that component, which is not followed. -/
def entryOf (env : FileEnv) (t : FileTree) (path : Bytes) : Except FileFault (List Bytes × Bytes) :=
  match (components path).getLast? with
  | none => .error (if path = [] then .notFound else .isDir)
  | some name =>
    match t.follow maxLinks (origin env.cwd path) (components path).dropLast with
    | .error fault => .error fault
    | .ok (pos, _) =>
      match t.node pos with
      | some (.dir _) => .ok (pos, name)
      | some _ => .error .notDir
      | none => .error .notFound

/-- `os.Mkdir`. -/
def mkdir (env : FileEnv) (t : FileTree) (path : Bytes) (mode : ℕ) : Option FileFault × FileTree :=
  match t.entryOf env path with
  | .error fault => (some fault, t)
  | .ok (pos, name) =>
    if name = dotDot ∨ t.node (pos ++ [name]) ≠ none then (some .alreadyExists, t)
    else if env.refuses (pos ++ [name]) then (some .refused, t)
    else (none, t.add pos name (.dir (env.perm mode)))

/-- The loop of `os.MkdirTemp`: names are tried until one is new. -/
def mkdirTemp (env : FileEnv) (t : FileTree) (stem : Bytes) (random : ℕ → ℕ) :
    ℕ → Except FileFault Bytes × FileTree
  | 0 => (.error .alreadyExists, t)
  | left + 1 =>
    let path := stem ++ decimal (random left)
    match t.mkdir env path 448 with
    | (none, t) => (.ok path, t)
    | (some .alreadyExists, _) => mkdirTemp env t stem random left
    | (some fault, t) => (.error fault, t)

/-- Without what stands at a place and below it. -/
def erase (t : FileTree) (pos : List Bytes) (name : Bytes) : FileTree :=
  { t with
    node := fun q => if pos ++ [name] <+: q then none else t.node q
    root := by
      rw [if_neg (by simp)]
      exact t.root
    parent := fun p n h => by
      split_ifs at h with hpre
      · exact absurd rfl h
      · rw [if_neg fun hp => hpre (hp.trans (List.prefix_append _ _))]
        exact t.parent p n h
    fits := fun p n h => by
      split_ifs at h
      exact t.fits p n h }

/-- `os.RemoveAll`, all of it or nothing. -/
def removeAll (env : FileEnv) (t : FileTree) (path : Bytes) : FileTree :=
  match t.entryOf env path with
  | .error _ => t
  | .ok (pos, name) => if name = dotDot then t else t.erase pos name

/-! ## Nodes -/

theorem isDir_of_node {cs : List Bytes} (h : t.node (pos ++ cs) ≠ none) (hcs : cs ≠ []) :
    t.isDir pos = true := by
  induction cs using List.reverseRecOn with
  | nil => exact absurd rfl hcs
  | append_singleton cs c ih =>
    rw [← List.append_assoc] at h
    obtain ⟨mode, hmode⟩ := t.parent _ _ h
    by_cases hnil : cs = []
    · rw [hnil, List.append_nil] at hmode
      exact isDir_iff.2 ⟨mode, hmode⟩
    · exact ih (by rw [hmode]; exact Option.some_ne_none _) hnil

theorem isDir_of_above {q : List Bytes} (h : t.isDir q = true) (hq : pos <+: q) :
    t.isDir pos = true := by
  obtain ⟨cs, rfl⟩ := hq
  by_cases hnil : cs = []
  · rwa [hnil, List.append_nil] at h
  · obtain ⟨mode, hmode⟩ := isDir_iff.1 h
    exact isDir_of_node (by rw [hmode]; exact Option.some_ne_none _) hnil

theorem isDir_of_node_eq {q : List Bytes} (h : t'.node q = t.node q) : t'.isDir q = t.isDir q := by
  unfold isDir
  rw [h]

theorem isDir_eq_false_of_none (h : t.node pos = none) : t.isDir pos = false := by
  unfold isDir
  rw [h]

theorem node_add {new : FileNode} (hpos : t.isDir pos = true)
    (hname : t.isDir (pos ++ [name]) = false) (hfits : new.Fits t.next) :
    (t.add pos name new).node = Function.update t.node (pos ++ [name]) (some new) := by
  unfold add
  rw [dif_pos ⟨⟨hpos, hname⟩, hfits⟩]

theorem node_add_of_ne {new : FileNode} {q : List Bytes} (hq : q ≠ pos ++ [name]) :
    (t.add pos name new).node q = t.node q := by
  unfold add
  split_ifs
  · exact Function.update_of_ne hq _ _
  · rfl

theorem inodes_add (t : FileTree) (pos : List Bytes) (name : Bytes) (new : FileNode) :
    (t.add pos name new).inodes = t.inodes := by
  unfold add
  split_ifs <;> rfl

theorem isDir_add {new : FileNode} {q : List Bytes} (h : t.isDir q = true) :
    (t.add pos name new).isDir q = true := by
  by_cases hq : q = pos ++ [name]
  · subst hq
    unfold add
    rwa [dif_neg fun hguard => by rw [h] at hguard; cases hguard.1.2]
  · rwa [isDir_of_node_eq (node_add_of_ne hq)]

/-- A node of the tree after an addition is the new one, or was there before. -/
theorem node_add_cases (t : FileTree) (pos : List Bytes) (name : Bytes) (new : FileNode)
    (q : List Bytes) : (t.add pos name new).node q = t.node q ∨
      q = pos ++ [name] ∧ (t.add pos name new).node q = some new := by
  by_cases hq : q = pos ++ [name]
  · subst hq
    unfold add
    split_ifs
    · exact Or.inr ⟨rfl, Function.update_self _ _ _⟩
    · exact Or.inl rfl
  · exact Or.inl (node_add_of_ne hq)

theorem view_congr {q : List Bytes} (hnode : t'.node q = t.node q)
    (hinodes : ∀ i, t.node q = some (.file i) → t'.inodes i = t.inodes i) :
    t'.view q = t.view q := by
  unfold view
  rw [hnode]
  cases hq : t.node q with
  | none => rfl
  | some n =>
    cases n with
    | dir mode => rfl
    | link target => rfl
    | file i => simp only [Option.map_some, FileNode.view, hinodes i hq]

theorem view_eq_none : t.view pos = none ↔ t.node pos = none := Option.map_eq_none_iff

theorem isDir_of_view_eq {q : List Bytes} (h : t'.view q = t.view q) : t'.isDir q = t.isDir q := by
  have hdir : ∀ u : FileTree, u.isDir q =
      match u.view q with
      | some (.dir _) => true
      | _ => false := by
    intro u
    unfold isDir view
    rcases u.node q with _ | n
    · rfl
    · cases n <;> rfl
  rw [hdir, hdir, h]

/-- A file that does not stand anywhere yet is not seen. -/
theorem inodes_alloc {mode : ℕ} {content : Bytes} {q : List Bytes} {i : ℕ}
    (h : t.node q = some (.file i)) : (t.alloc mode content).inodes i = t.inodes i :=
  Function.update_of_ne (Nat.ne_of_lt (t.fits q _ h)) _ _

theorem node_addFile_of_ne {mode : ℕ} {content : Bytes} {q : List Bytes} (hq : q ≠ pos ++ [name]) :
    (t.addFile pos name mode content).node q = t.node q := node_add_of_ne hq

theorem isDir_addFile {mode : ℕ} {content : Bytes} {q : List Bytes} (h : t.isDir q = true) :
    (t.addFile pos name mode content).isDir q = true := isDir_add (t := t.alloc mode content) h

theorem view_addFile_of_ne {mode : ℕ} {content : Bytes} {q : List Bytes} (hq : q ≠ pos ++ [name]) :
    (t.addFile pos name mode content).view q = t.view q := by
  refine view_congr (node_addFile_of_ne hq) fun i hi => ?_
  rw [addFile, inodes_add]
  exact inodes_alloc hi

theorem view_addFile_self {mode : ℕ} {content : Bytes} (hpos : t.isDir pos = true)
    (hname : t.isDir (pos ++ [name]) = false) :
    (t.addFile pos name mode content).view (pos ++ [name]) = some (.file mode content) := by
  have hnode : (t.addFile pos name mode content).node (pos ++ [name]) = some (.file t.next) := by
    have hfits : (FileNode.file t.next).Fits (t.alloc mode content).next := Nat.lt_succ_self _
    rw [addFile, node_add (t := t.alloc mode content) hpos hname hfits, Function.update_self]
  have hinode : (t.addFile pos name mode content).inodes t.next = (mode, content) := by
    rw [addFile, inodes_add]
    exact Function.update_self _ _ _
  simp only [view, hnode, Option.map_some, FileNode.view, hinode]

theorem node_addDir (hpos : t.isDir pos = true) (hnone : t.node (pos ++ [name]) = none) (mode : ℕ) :
    (t.add pos name (.dir mode)).node =
      Function.update t.node (pos ++ [name]) (some (.dir mode)) := by
  have hfits : (FileNode.dir mode).Fits t.next := trivial
  exact node_add hpos (isDir_eq_false_of_none hnone) hfits

theorem isDir_addDir (hpos : t.isDir pos = true) (hnone : t.node (pos ++ [name]) = none)
    (mode : ℕ) : (t.add pos name (.dir mode)).isDir (pos ++ [name]) = true :=
  isDir_iff.2 ⟨mode, by rw [node_addDir hpos hnone, Function.update_self]⟩

theorem view_addDir_self (hpos : t.isDir pos = true) (hnone : t.node (pos ++ [name]) = none)
    (mode : ℕ) : (t.add pos name (.dir mode)).view (pos ++ [name]) = some (.dir mode) := by
  rw [view, node_addDir hpos hnone, Function.update_self]
  rfl

theorem view_addDir_of_ne {mode : ℕ} {q : List Bytes} (hq : q ≠ pos ++ [name]) :
    (t.add pos name (.dir mode)).view q = t.view q :=
  view_congr (node_add_of_ne hq) fun i _ => congrFun (inodes_add t pos name _) i

/-! ## Following paths -/

section Follow

variable {left : ℕ} {next : List Bytes → List Bytes → Except FileFault (List Bytes × ℕ)}

/-- Down through directories that are there. -/
theorem followWith_of_isDir {names : List Bytes} (hnames : ∀ c ∈ names, IsName c)
    (h : t.isDir (pos ++ names) = true) (cs : List Bytes) :
    followWith t left next pos (names ++ cs) = followWith t left next (pos ++ names) cs := by
  induction names generalizing pos with
  | nil => rw [List.append_nil, List.nil_append]
  | cons c names ih =>
    obtain ⟨hc, hnames⟩ := List.forall_mem_cons.1 hnames
    rw [List.append_cons] at h ⊢
    obtain ⟨m, hm⟩ := isDir_iff.1 (isDir_of_above h (List.prefix_append _ _))
    rw [← ih hnames h, List.cons_append, followWith, if_neg hc.2, hm]

theorem followWith_replicate (k : ℕ) (pos cs : List Bytes) :
    followWith t left next pos (List.replicate k dotDot ++ cs) =
      followWith t left next ((List.replicate k dotDot).foldl walk pos) cs := by
  induction k generalizing pos with
  | zero => rfl
  | succ k ih =>
    rw [List.replicate_succ, List.cons_append, followWith, if_pos rfl, ih, List.foldl_cons, walk,
      if_pos rfl]

/-- Without links the way ends where the names lead, or breaks off. -/
theorem followWith_names {names : List Bytes} (hnames : ∀ c ∈ names, IsName c)
    (hlinks : ∀ ns, ns <+: names → ∀ target, t.node (pos ++ ns) ≠ some (.link target)) :
    (∃ fault, followWith t left next pos names = .error fault) ∨
      followWith t left next pos names = .ok (pos ++ names, left) := by
  induction names generalizing pos with
  | nil =>
    rw [List.append_nil]
    exact Or.inr rfl
  | cons c names ih =>
    obtain ⟨hc, hnames⟩ := List.forall_mem_cons.1 hnames
    rw [followWith, if_neg hc.2]
    cases hnode : t.node (pos ++ [c]) with
    | none =>
      dsimp only
      split_ifs with hnil
      · rw [hnil]
        exact Or.inr rfl
      · exact Or.inl ⟨_, rfl⟩
    | some n =>
      cases n with
      | dir m =>
        rw [List.append_cons pos c names]
        refine ih hnames fun ns hns target => ?_
        rw [← List.append_cons]
        exact hlinks (c :: ns) (List.cons_prefix_cons.2 ⟨rfl, hns⟩) target
      | file i =>
        dsimp only
        split_ifs with hnil
        · rw [hnil]
          exact Or.inr rfl
        · exact Or.inl ⟨_, rfl⟩
      | link target =>
        exact absurd hnode (hlinks [c] (List.cons_prefix_cons.2 ⟨rfl, List.nil_prefix⟩) target)

/-- A statement about ways up to the first link holds of whole ways. -/
theorem follow_eq (t : FileTree) (left : ℕ) :
    ∃ next, t.follow left = followWith t left next := by
  cases left with
  | zero => exact ⟨_, rfl⟩
  | succ left => exact ⟨_, rfl⟩

end Follow

/-! ## `MkdirAll` -/

/-- What the second tree has of the first: everything as it was, and at most new directories. -/
structure Grown (t t' : FileTree) : Prop where
  nodes : ∀ q, t'.node q = t.node q ∨ t.node q = none ∧ t'.isDir q = true
  inodes : t'.inodes = t.inodes

theorem Grown.refl (t : FileTree) : Grown t t := ⟨fun _ => Or.inl rfl, rfl⟩

theorem Grown.isDir (h : Grown t t') (hpos : t.isDir pos = true) : t'.isDir pos = true := by
  rcases h.nodes pos with heq | ⟨-, hdir⟩
  · rwa [isDir_of_node_eq heq]
  · exact hdir

theorem Grown.trans {t'' : FileTree} (h₁ : Grown t t') (h₂ : Grown t' t'') : Grown t t'' := by
  refine ⟨fun q => ?_, h₂.inodes.trans h₁.inodes⟩
  rcases h₁.nodes q with heq | ⟨hnone, hdir⟩
  · rw [← heq]
    rcases h₂.nodes q with heq' | ⟨hnone', hdir'⟩
    · exact Or.inl heq'
    · exact Or.inr ⟨hnone', hdir'⟩
  · exact Or.inr ⟨hnone, h₂.isDir hdir⟩

/-- Whatever is not a directory was there before. -/
theorem Grown.node_of_notDir (h : Grown t t') {q : List Bytes} {n : FileNode}
    (hq : t'.node q = some n) (hn : ∀ mode, n ≠ .dir mode) : t.node q = some n := by
  rcases h.nodes q with heq | ⟨-, hdir⟩
  · exact heq.symm.trans hq
  · obtain ⟨mode, hmode⟩ := isDir_iff.1 hdir
    exact absurd (Option.some.inj (hq.symm.trans hmode)) (hn mode)

theorem Grown.link (h : Grown t t') {q : List Bytes} {target : Bytes}
    (hq : t'.node q = some (.link target)) : t.node q = some (.link target) :=
  h.node_of_notDir hq fun mode hmode => by cases hmode

theorem Grown.file (h : Grown t t') {q : List Bytes} {i : ℕ} (hq : t'.node q = some (.file i)) :
    t.node q = some (.file i) :=
  h.node_of_notDir hq fun mode hmode => by cases hmode

theorem Grown.node_of_some (h : Grown t t') {q : List Bytes} {n : FileNode}
    (hq : t.node q = some n) : t'.node q = some n := by
  rcases h.nodes q with heq | ⟨hnone, -⟩
  · exact heq.trans hq
  · rw [hq] at hnone
    cases hnone

theorem Grown.view (h : Grown t t') (q : List Bytes) :
    t'.view q = t.view q ∨ t.view q = none ∧ t'.isDir q = true := by
  refine (h.nodes q).imp (fun heq => view_congr heq fun i _ => congrFun h.inodes i) ?_
  rintro ⟨hnone, hdir⟩
  exact ⟨by rw [FileTree.view, hnone]; rfl, hdir⟩

theorem grown_add (hnone : t.node (pos ++ [name]) = none) (mode : ℕ) :
    Grown t (t.add pos name (.dir mode)) := by
  refine ⟨fun q => ?_, inodes_add t pos name _⟩
  rcases node_add_cases t pos name (.dir mode) q with heq | ⟨rfl, hdir⟩
  · exact Or.inl heq
  · exact Or.inr ⟨hnone, isDir_iff.2 ⟨mode, hdir⟩⟩

section Grown

variable {left l : ℕ} {start cs : List Bytes}
  {next next' : List Bytes → List Bytes → Except FileFault (List Bytes × ℕ)}

/-- A way to something that is there is the same in the larger tree. -/
theorem followWith_grown (hgrown : Grown t t') (hpos : t.node pos ≠ none)
    (hnext : ∀ start cs, next start cs = .ok (pos, l) → next' start cs = .ok (pos, l))
    (h : followWith t left next start cs = .ok (pos, l)) :
    followWith t' left next' start cs = .ok (pos, l) := by
  induction cs generalizing start with
  | nil => exact h
  | cons c cs ih =>
    rw [followWith] at h ⊢
    by_cases hc : c = dotDot
    · rw [if_pos hc] at h ⊢
      exact ih h
    · rw [if_neg hc] at h ⊢
      cases hnode : t.node (start ++ [c]) with
      | none =>
        rw [hnode] at h
        dsimp only at h
        split_ifs at h
        cases h
        exact absurd hnode hpos
      | some n =>
        rw [hnode] at h
        rw [hgrown.node_of_some hnode]
        cases n with
        | dir m => exact ih h
        | file i => exact h
        | link target => exact hnext _ _ h

theorem follow_grown (hgrown : Grown t t') (hpos : t.node pos ≠ none)
    (h : t.follow left start cs = .ok (pos, l)) : t'.follow left start cs = .ok (pos, l) := by
  induction left generalizing start cs with
  | zero =>
    rw [follow] at h ⊢
    exact followWith_grown hgrown hpos (fun _ _ hnext => hnext) h
  | succ left ih => exact followWith_grown hgrown hpos (fun _ _ hnext => ih hnext) h

/-- One step more, from the directory to which a way leads. -/
theorem followWith_concat (hdir : t.isDir pos = true)
    (hfollow : t.follow left = followWith t left next)
    (hnext : ∀ start cs, next start cs = .ok (pos, l) →
      next start (cs ++ [name]) = t.follow l pos [name])
    (h : followWith t left next start cs = .ok (pos, l)) :
    followWith t left next start (cs ++ [name]) = t.follow l pos [name] := by
  obtain ⟨mode, hmode⟩ := isDir_iff.1 hdir
  induction cs generalizing start with
  | nil =>
    cases h
    rw [hfollow, List.nil_append]
  | cons c cs ih =>
    rw [followWith] at h
    rw [List.cons_append, followWith]
    by_cases hc : c = dotDot
    · rw [if_pos hc] at h ⊢
      exact ih h
    · rw [if_neg hc] at h ⊢
      cases hnode : t.node (start ++ [c]) with
      | none =>
        rw [hnode] at h
        dsimp only at h
        split_ifs at h
        cases h
        rw [hmode] at hnode
        cases hnode
      | some n =>
        rw [hnode] at h
        cases n with
        | dir m => exact ih h
        | file i =>
          dsimp only at h
          split_ifs at h
          cases h
          rw [hmode] at hnode
          cases hnode
        | link target =>
          dsimp only
          rw [← List.append_assoc]
          exact hnext _ _ h

theorem follow_concat (hdir : t.isDir pos = true) (h : t.follow left start cs = .ok (pos, l)) :
    t.follow left start (cs ++ [name]) = t.follow l pos [name] := by
  induction left generalizing start cs with
  | zero => exact followWith_concat hdir rfl (fun _ _ hnext => nomatch hnext) h
  | succ left ih => exact followWith_concat hdir rfl (fun _ _ hnext => ih hnext) h

/-- Files stay where they are found. -/
theorem Grown.readFile (h : Grown t t') {path data : Bytes} (hread : t.readFile env path = .ok data) :
    t'.readFile env path = .ok data := by
  unfold FileTree.readFile at hread
  cases hplace : t.locate env path with
  | error fault =>
    rw [hplace] at hread
    cases hread
  | ok place =>
    rw [hplace] at hread
    have hthere : t.node place ≠ none := by
      intro hnone
      simp only [FileTree.view, hnone, Option.map_none] at hread
      split_ifs at hread
    have hplace' : t'.locate env path = .ok place := by
      unfold locate at hplace ⊢
      split_ifs at hplace ⊢
      obtain ⟨⟨pos, l⟩, hfollow, rfl⟩ := map_eq_ok.1 hplace
      rw [follow_grown h hthere hfollow]
      rfl
    have hview : t'.view place = t.view place := by
      refine (h.view place).resolve_right fun hnew => hthere ?_
      exact view_eq_none.1 hnew.1
    rw [FileTree.readFile, hplace']
    dsimp only
    rw [hview]
    exact hread

end Grown

section Mkdirs

variable {mode left : ℕ}

theorem mkdirs_up (left : ℕ) (t : FileTree) (pos cs : List Bytes) :
    mkdirs env mode left t pos (dotDot :: cs) = mkdirs env mode left t pos.dropLast cs := by
  rw [mkdirs, if_pos rfl]

/-- A step down finds a directory, or fails, or makes one, or goes through a link. -/
theorem mkdirs_down {c : Bytes} (hc : c ≠ dotDot) (left : ℕ) (t : FileTree) (pos cs : List Bytes) :
    (t.isDir (pos ++ [c]) = true ∧
        mkdirs env mode left t pos (c :: cs) = mkdirs env mode left t (pos ++ [c]) cs) ∨
      (∃ fault, mkdirs env mode left t pos (c :: cs) = (some fault, t)) ∨
      (t.node (pos ++ [c]) = none ∧ mkdirs env mode left t pos (c :: cs) =
        mkdirs env mode left (t.add pos c (.dir (env.perm mode))) (pos ++ [c]) cs) ∨
      ∃ target place left', t.node (pos ++ [c]) = some (.link target) ∧
        mkdirs env mode left t pos (c :: cs) = mkdirs env mode left' t place cs := by
  rw [mkdirs, if_neg hc]
  cases hnode : t.node (pos ++ [c]) with
  | none =>
    dsimp only
    split_ifs
    · exact Or.inr (Or.inl ⟨_, rfl⟩)
    · exact Or.inr (Or.inr (Or.inl ⟨rfl, rfl⟩))
  | some n =>
    cases n with
    | dir m => exact Or.inl ⟨isDir_iff.2 ⟨m, hnode⟩, rfl⟩
    | file i => exact Or.inr (Or.inl ⟨_, rfl⟩)
    | link target =>
      dsimp only
      split
      · exact Or.inr (Or.inl ⟨_, rfl⟩)
      · split
        · exact Or.inr (Or.inr (Or.inr ⟨target, _, _, rfl, rfl⟩))
        · exact Or.inr (Or.inl ⟨_, rfl⟩)
        · exact Or.inr (Or.inl ⟨_, rfl⟩)

theorem grown_mkdirs (cs : List Bytes) (left : ℕ) (t : FileTree) (pos : List Bytes) :
    Grown t (mkdirs env mode left t pos cs).2 := by
  induction cs generalizing left t pos with
  | nil => exact .refl t
  | cons c cs ih =>
    by_cases hc : c = dotDot
    · rw [hc, mkdirs_up]
      exact ih left t _
    · rcases mkdirs_down hc left t pos cs with ⟨-, heq⟩ | ⟨fault, heq⟩ | ⟨hnone, heq⟩ |
        ⟨target, place, left', -, heq⟩
      · rw [heq]
        exact ih left t _
      · rw [heq]
        exact .refl t
      · rw [heq]
        exact (grown_add hnone _).trans (ih left _ _)
      · rw [heq]
        exact ih left' t place

/-- Where `MkdirAll` ends there is a directory, and without links on the way it ends where the
components lead. -/
theorem isDir_mkdirs {cs : List Bytes} (hpos : t.isDir pos = true)
    (hlinks : ∀ cs', cs' <+: cs → ∀ target, t.node (cs'.foldl walk pos) ≠ some (.link target))
    (h : (mkdirs env mode left t pos cs).1 = none) :
    (mkdirs env mode left t pos cs).2.isDir (cs.foldl walk pos) = true := by
  induction cs generalizing t pos with
  | nil => exact hpos
  | cons c cs ih =>
    have hrest : ∀ cs', cs' <+: cs → ∀ target,
        t.node (cs'.foldl walk (walk pos c)) ≠ some (.link target) := fun cs' hcs' =>
      hlinks (c :: cs') (List.cons_prefix_cons.2 ⟨rfl, hcs'⟩)
    rw [List.foldl_cons]
    by_cases hc : c = dotDot
    · have hwalk : walk pos c = pos.dropLast := by rw [walk, if_pos hc]
      rw [hwalk] at hrest ⊢
      rw [hc, mkdirs_up] at h ⊢
      exact ih (isDir_of_above hpos ( List.dropLast_prefix _)) hrest h
    · have hwalk : walk pos c = pos ++ [c] := by rw [walk, if_neg hc]
      rw [hwalk] at hrest ⊢
      rcases mkdirs_down hc left t pos cs with ⟨hdir, heq⟩ | ⟨fault, heq⟩ | ⟨hnone, heq⟩ |
        ⟨target, place, left', hlink, -⟩
      · rw [heq] at h ⊢
        exact ih hdir hrest h
      · rw [heq] at h
        cases h
      · rw [heq] at h ⊢
        refine ih (isDir_addDir hpos hnone _) (fun cs' hcs' target hlink => ?_) h
        exact hrest cs' hcs' target ((grown_add hnone _).link hlink)
      · exact absurd hlink (hrest [] List.nil_prefix target)

/-- Steps up create nothing. -/
theorem mkdirs_replicate (k : ℕ) (t : FileTree) (pos cs : List Bytes) :
    mkdirs env mode left t pos (List.replicate k dotDot ++ cs) =
      mkdirs env mode left t ((List.replicate k dotDot).foldl walk pos) cs := by
  induction k generalizing pos with
  | zero => rfl
  | succ k ih =>
    rw [List.replicate_succ, List.cons_append, mkdirs_up, ih, List.foldl_cons, walk, if_pos rfl]

theorem mkdirs_of_isDir {names : List Bytes} (hnames : ∀ c ∈ names, IsName c)
    (h : t.isDir (pos ++ names) = true) (cs : List Bytes) :
    mkdirs env mode left t pos (names ++ cs) = mkdirs env mode left t (pos ++ names) cs := by
  induction names generalizing pos with
  | nil => rw [List.append_nil, List.nil_append]
  | cons c names ih =>
    obtain ⟨hc, hnames⟩ := List.forall_mem_cons.1 hnames
    rw [List.append_cons] at h ⊢
    obtain ⟨m, hm⟩ := isDir_iff.1 (isDir_of_above h (List.prefix_append _ _))
    rw [← ih hnames h, List.cons_append, mkdirs, if_neg hc.2, hm]

/-- New directories on a way down without links are places on that way. -/
theorem mkdirs_names {names : List Bytes} (hnames : ∀ c ∈ names, IsName c) {t : FileTree}
    {pos : List Bytes}
    (hlinks : ∀ ns, ns <+: names → ∀ target, t.node (pos ++ ns) ≠ some (.link target))
    (q : List Bytes) :
    (mkdirs env mode left t pos names).2.node q = t.node q ∨
      t.node q = none ∧ q <+: pos ++ names := by
  induction names generalizing t pos with
  | nil => exact Or.inl rfl
  | cons c names ih =>
    obtain ⟨hc, hnames⟩ := List.forall_mem_cons.1 hnames
    have hrest : ∀ ns, ns <+: names → ∀ target, t.node (pos ++ [c] ++ ns) ≠ some (.link target) := by
      intro ns hns target
      rw [← List.append_cons]
      exact hlinks (c :: ns) (List.cons_prefix_cons.2 ⟨rfl, hns⟩) target
    rw [List.append_cons pos c names]
    rcases mkdirs_down hc.2 left t pos names with ⟨-, heq⟩ | ⟨fault, heq⟩ | ⟨hnone, heq⟩ |
      ⟨target, place, left', hlink, -⟩
    · rw [heq]
      exact ih hnames hrest
    · rw [heq]
      exact Or.inl rfl
    · rw [heq]
      by_cases hq : q = pos ++ [c]
      · subst hq
        exact Or.inr ⟨hnone, List.prefix_append _ _⟩
      · have hadd : (t.add pos c (.dir (env.perm mode))).node q = t.node q := node_add_of_ne hq
        rw [← hadd]
        refine ih hnames fun ns hns target hlink => hrest ns hns target ?_
        exact (grown_add hnone _).link hlink
    · refine absurd hlink ?_
      have hstart := hrest [] List.nil_prefix target
      rwa [List.append_nil] at hstart

end Mkdirs

theorem grown_mkdirAll (env : FileEnv) (t : FileTree) (path : Bytes) (mode : ℕ) :
    t.Grown (t.mkdirAll env path mode).2 := by
  unfold mkdirAll
  split_ifs
  · exact .refl t
  · exact grown_mkdirs _ _ _ _

/-! ## `Mkdir` -/

section Mkdir

variable {path : Bytes} {mode : ℕ}

theorem entryOf_ok (h : t.entryOf env path = .ok (pos, name)) :
    t.isDir pos = true ∧ path ≠ [] ∧ ∃ l cs, components path = cs ++ [name] ∧
      t.follow maxLinks (origin env.cwd path) cs = .ok (pos, l) := by
  unfold entryOf at h
  split at h
  · cases h
  · rename_i last hlast
    split at h
    · cases h
    · rename_i place l hfollow
      split at h
      · rename_i m hm
        cases h
        refine ⟨isDir_iff.2 ⟨m, hm⟩, ?_, l, _, (List.dropLast_append_getLast? name hlast).symm,
          hfollow⟩
        rintro rfl
        cases hlast
      · cases h
      · cases h

/-- `Mkdir` fails and changes nothing, or makes a directory that was not there. -/
theorem mkdir_cases (env : FileEnv) (t : FileTree) (path : Bytes) (mode : ℕ) :
    (∃ fault, t.mkdir env path mode = (some fault, t)) ∨ ∃ pos name,
      t.entryOf env path = .ok (pos, name) ∧ name ≠ dotDot ∧ t.node (pos ++ [name]) = none ∧
        t.mkdir env path mode = (none, t.add pos name (.dir (env.perm mode))) := by
  unfold mkdir
  split
  · exact Or.inl ⟨_, rfl⟩
  · rename_i pos name hentry
    split_ifs with hthere hrefused
    · exact Or.inl ⟨_, rfl⟩
    · exact Or.inl ⟨_, rfl⟩
    · rw [not_or, not_ne_iff] at hthere
      exact Or.inr ⟨pos, name, hentry, hthere.1, hthere.2, rfl⟩

theorem entryOf_grown (hgrown : t.Grown t') (h : t.entryOf env path = .ok (pos, name)) :
    t'.entryOf env path = .ok (pos, name) := by
  obtain ⟨hdir, -, l, cs, hcs, hfollow⟩ := entryOf_ok h
  obtain ⟨m, hm⟩ := isDir_iff.1 hdir
  have hfollow' := follow_grown hgrown (by rw [hm]; exact Option.some_ne_none _) hfollow
  have hlast : (components path).getLast? = some name := by rw [hcs, List.getLast?_concat]
  rw [entryOf, hlast]
  dsimp only
  rw [hcs, List.dropLast_concat, hfollow']
  simp only [hgrown.node_of_some hm]

theorem locate_of_entryOf (h : t.entryOf env path = .ok (pos, name)) (hname : name ≠ dotDot)
    (hnew : t.isDir (pos ++ [name]) = true) : t.locate env path = .ok (pos ++ [name]) := by
  obtain ⟨hdir, hpath, l, cs, hcs, hfollow⟩ := entryOf_ok h
  obtain ⟨m, hm⟩ := isDir_iff.1 hnew
  obtain ⟨next, hnext⟩ := t.follow_eq l
  rw [locate, if_neg hpath, hcs, follow_concat hdir hfollow, hnext, followWith, if_neg hname, hm]
  rfl

/-- Nothing is below what was not there. -/
theorem node_erase_add (hnone : t.node (pos ++ [name]) = none) (new : FileNode) (q : List Bytes) :
    ((t.add pos name new).erase pos name).node q = t.node q := by
  unfold erase
  dsimp only
  split_ifs with hq
  · obtain ⟨ds, rfl⟩ := hq
    by_contra hne
    by_cases hds : ds = []
    · rw [hds, List.append_nil] at hne
      exact hne hnone.symm
    · have hthere := isDir_of_node (Ne.symm hne) hds
      rw [isDir_eq_false_of_none hnone] at hthere
      cases hthere
  · exact node_add_of_ne fun heq => hq (heq ▸ List.prefix_refl _)

/-- A directory that has just been made is found, and without it the tree is as it was. -/
theorem mkdir_found (h : t.mkdir env path mode = (none, t')) :
    (∃ v, t'.stat env path = .ok v) ∧ t.Grown t' ∧ t.Grown (t'.removeAll env path) := by
  rcases mkdir_cases env t path mode with ⟨fault, heq⟩ | ⟨pos, name, hentry, hname, hnone, heq⟩
  · rw [h] at heq
    cases heq
  · rw [h] at heq
    cases heq
    have hgrown := grown_add (t := t) hnone (env.perm mode)
    have hentry' := entryOf_grown hgrown hentry
    have hnew := isDir_addDir (entryOf_ok hentry).1 hnone (env.perm mode)
    refine ⟨?_, hgrown, ?_⟩
    · obtain ⟨m, hm⟩ := isDir_iff.1 hnew
      refine ⟨.dir m, ?_⟩
      rw [stat, locate_of_entryOf hentry' hname hnew]
      simp only [view, hm, Option.map_some, FileNode.view]
    · rw [removeAll, hentry']
      dsimp only
      rw [if_neg hname]
      exact ⟨fun q => Or.inl (node_erase_add hnone _ q), inodes_add t pos name _⟩

/-- `MkdirTemp` fails and changes nothing, or makes one directory. -/
theorem mkdirTemp_cases (env : FileEnv) (t : FileTree) (stem : Bytes) (random : ℕ → ℕ) (left : ℕ) :
    (∃ fault, t.mkdirTemp env stem random left = (.error fault, t)) ∨ ∃ path t',
      t.mkdir env path 448 = (none, t') ∧ t.mkdirTemp env stem random left = (.ok path, t') := by
  induction left with
  | zero => exact Or.inl ⟨_, rfl⟩
  | succ left ih =>
    rw [mkdirTemp]
    rcases mkdir_cases env t (stem ++ decimal (random left)) 448 with ⟨fault, heq⟩ |
      ⟨pos, name, -, -, -, heq⟩
    · rw [heq]
      cases fault with
      | alreadyExists => exact ih
      | _ => exact Or.inl ⟨_, rfl⟩
    · refine Or.inr ⟨_, _, heq, ?_⟩
      rw [heq]

end Mkdir

/-! ## Clean paths -/

section Clean

variable {p : Bytes} {mode : ℕ}

/-- A clean path leads down from a place that exists, for all calls. -/
theorem exists_way (env : FileEnv) (p : Bytes) : ∃ start names, (∀ c ∈ names, IsName c) ∧
    (start <+: env.cwd ∨ start = []) ∧ resolve env.cwd p = start ++ names ∧
    (∀ t mode, mkdirAll env t (clean p) mode = mkdirs env mode maxLinks t start names) ∧
    ∀ t, locate env t (clean p) = (t.follow maxLinks start names).map Prod.fst := by
  obtain ⟨k, names, heq, hk, hnames⟩ := shaped_cleaned p
  have horigin : origin env.cwd (clean p) = origin env.cwd p := by
    rw [origin, isRooted_clean, origin]
  refine ⟨(List.replicate k dotDot).foldl walk (origin env.cwd p), names, hnames, ?_, ?_, ?_, ?_⟩
  · rw [foldl_walk_replicate]
    unfold origin
    split_ifs
    · exact Or.inr List.take_nil
    · exact Or.inl ( List.take_prefix _ _)
  · rw [← foldl_walk_cleaned, heq, List.foldl_append, foldl_walk_names hnames]
  · intro t mode
    rw [mkdirAll, if_neg (clean_ne_nil p), components_clean, heq, horigin]
    exact mkdirs_replicate k t _ names
  · intro t
    obtain ⟨next, hnext⟩ := t.follow_eq maxLinks
    rw [locate, if_neg (clean_ne_nil p), components_clean, heq, horigin, hnext]
    exact congrArg (Except.map Prod.fst) (followWith_replicate k _ names)

theorem isDir_start {start : List Bytes} (hcwd : t.isDir env.cwd = true)
    (h : start <+: env.cwd ∨ start = []) : t.isDir start = true := by
  rcases h with h | rfl
  · exact isDir_of_above hcwd h
  · exact isDir_iff.2 t.root

/-- No link is at a place or above it. -/
def Linkless (t : FileTree) (place : List Bytes) : Prop :=
  ∀ q, q <+: place → ∀ target, t.node q ≠ some (.link target)

theorem mkdirAll_clean (hlinks : t.Linkless (resolve env.cwd p)) (mode : ℕ) (q : List Bytes) :
    (mkdirAll env t (clean p) mode).2.node q = t.node q ∨
      t.node q = none ∧ q <+: resolve env.cwd p := by
  obtain ⟨start, names, hnames, -, hres, heq, -⟩ := exists_way env p
  rw [hres] at hlinks ⊢
  rw [heq]
  exact mkdirs_names hnames (fun ns hns => hlinks _ (List.prefix_append_right_inj _ |>.2 hns)) q

theorem mkdirAll_of_isDir (h : t.isDir (resolve env.cwd p) = true) :
    mkdirAll env t (clean p) mode = (none, t) := by
  obtain ⟨start, names, hnames, -, hres, heq, -⟩ := exists_way env p
  rw [hres] at h
  have hdown : mkdirs env mode maxLinks t start (names ++ []) =
      mkdirs env mode maxLinks t (start ++ names) [] := mkdirs_of_isDir hnames h []
  rw [List.append_nil] at hdown
  rw [heq, hdown]
  rfl

theorem mkdirAll_concat (hcwd : t.isDir env.cwd = true)
    (hres : resolve env.cwd p = pos ++ [name]) (hpos : t.isDir pos = true)
    (hnone : t.node (pos ++ [name]) = none) (hallowed : env.refuses (pos ++ [name]) = false) :
    mkdirAll env t (clean p) mode = (none, t.add pos name (.dir (env.perm mode))) := by
  obtain ⟨start, names, hnames, hstart, hres', heq, -⟩ := exists_way env p
  have hstart := isDir_start hcwd hstart
  rw [hres] at hres'
  rcases names.eq_nil_or_concat' with rfl | ⟨names, c, rfl⟩
  · -- the place one starts from exists
    rw [List.append_nil] at hres'
    rw [← hres', isDir_eq_false_of_none hnone] at hstart
    cases hstart
  · rw [← List.append_assoc] at hres'
    obtain ⟨hparent, hc⟩ := List.append_inj' hres' rfl
    cases hc
    have hup := fun x hx => hnames x (List.mem_append_left _ hx)
    have hname : IsName name := hnames name (List.mem_append_right _ List.mem_cons_self)
    rw [heq, mkdirs_of_isDir hup (hparent ▸ hpos), ← hparent, mkdirs, if_neg hname.2, hnone]
    simp only [hallowed, mkdirs]
    rfl

/-- Without links a clean path leads where its components say, or nowhere. -/
theorem locate_clean (hlinks : t.Linkless (resolve env.cwd p)) :
    (∃ fault, t.locate env (clean p) = .error fault) ∨
      t.locate env (clean p) = .ok (resolve env.cwd p) := by
  obtain ⟨start, names, hnames, -, hres, -, hlocate⟩ := exists_way env p
  obtain ⟨next, hnext⟩ := t.follow_eq maxLinks
  rw [hres] at hlinks ⊢
  rw [hlocate, hnext]
  rcases followWith_names hnames (fun ns hns => hlinks _ (List.prefix_append_right_inj _ |>.2 hns))
    with ⟨fault, heq⟩ | heq
  · exact Or.inl ⟨fault, by rw [heq]; rfl⟩
  · exact Or.inr (by rw [heq]; rfl)

/-- It leads there if the directory of the place is there. -/
theorem locate_concat (hres : resolve env.cwd p = pos ++ [name])
    (hpos : t.isDir pos = true) (hlink : ∀ target, t.node (pos ++ [name]) ≠ some (.link target)) :
    t.locate env (clean p) = .ok (pos ++ [name]) := by
  obtain ⟨start, names, hnames, hstart, hres', -, hlocate⟩ := exists_way env p
  obtain ⟨next, hnext⟩ := t.follow_eq maxLinks
  rw [hres] at hres'
  rw [hlocate, hnext]
  rcases names.eq_nil_or_concat' with rfl | ⟨names, c, rfl⟩
  · rw [List.append_nil] at hres'
    rw [hres']
    rfl
  · rw [← List.append_assoc] at hres'
    obtain ⟨rfl, hc⟩ := List.append_inj' hres' rfl
    cases hc
    have hup := fun x hx => hnames x (List.mem_append_left _ hx)
    have hname : IsName name := hnames name (List.mem_append_right _ List.mem_cons_self)
    rw [followWith_of_isDir hup hpos, followWith, if_neg hname.2]
    cases hnode : t.node (start ++ names ++ [name]) with
    | none => rfl
    | some n =>
      cases n with
      | dir m => rfl
      | file i => rfl
      | link target => exact absurd hnode (hlink target)

end Clean

/-! ## Files -/

section Files

variable {p content : Bytes} {mode : ℕ}

/-- Creating a file changes the file at its place, or adds one there. -/
theorem createFile_cases (env : FileEnv) (t : FileTree) (p : Bytes) (mode : ℕ) (content : Bytes) :
    (createFile env t p mode content).2 = t ∨ ∃ place written, t.locate env p = .ok place ∧
      ((∃ i, t.node place = some (.file i) ∧
          (createFile env t p mode content).2 = t.write i written) ∨
        ∃ pos name, place = pos ++ [name] ∧ t.node place = none ∧
          (createFile env t p mode content).2 = t.addFile pos name (env.perm mode) written) := by
  unfold createFile
  cases hplace : t.locate env p with
  | error fault => exact Or.inl rfl
  | ok place =>
    dsimp only
    split
    · exact Or.inl rfl
    · rename_i name hlast
      split
      · exact Or.inl rfl
      · split
        · exact Or.inl rfl
        · exact Or.inl rfl
        · rename_i i hnode
          exact Or.inr ⟨place, _, rfl, Or.inl ⟨i, hnode, rfl⟩⟩
        · rename_i hnode
          split
          · exact Or.inr ⟨place, _, rfl, Or.inr ⟨place.dropLast, name,
              (List.dropLast_append_getLast? name hlast).symm, hnode, rfl⟩⟩
          · exact Or.inl rfl

theorem isDir_createFile {q : List Bytes} (h : t.isDir q = true) :
    (createFile env t p mode content).2.isDir q = true := by
  rcases createFile_cases env t p mode content with heq | ⟨place, written, -, ⟨i, -, heq⟩ |
    ⟨pos, name, -, -, heq⟩⟩
  · rwa [heq]
  · rw [heq]
    exact h
  · rw [heq]
    exact isDir_addFile h

theorem createFile_new (hres : resolve env.cwd p = pos ++ [name]) (hpos : t.isDir pos = true)
    (hnone : t.node (pos ++ [name]) = none) (hallowed : env.refuses (pos ++ [name]) = false)
    (hroom : env.short (pos ++ [name]) = none) :
    createFile env t (clean p) mode content =
      (none, t.addFile pos name (env.perm mode) content) := by
  have hplace : t.locate env (clean p) = .ok (pos ++ [name]) :=
    locate_concat hres hpos fun target h => by rw [hnone] at h; cases h
  simp only [createFile, hplace, List.getLast?_concat, hallowed, hnone, List.dropLast_concat, hpos,
    FileEnv.copied, hroom]
  rfl

end Files

end FileTree

end Lib
