import GoQuorum.Backup.Restore

/-!
# What an archive brings back

`createTarGz` writes the entries of a directory in the order of a walk, each directory before what
it contains.  Extracting them into an empty directory therefore creates one node for each entry
(`extracts_entries`), and the directory has what was archived (`restore_brings_back`).
-/

namespace GoQuorum

open Lib Lib.Paths

/-! ## What a directory contains -/

namespace DirContent

def names : DirContent → List Bytes
  | .nil => []
  | .file name _ _ rest => name :: rest.names
  | .dir name _ _ rest => name :: rest.names

/-- What is at a place below the directory. -/
def lookup : DirContent → List Bytes → Option FileView
  | .nil, _ => none
  | .file name mode content rest, cs =>
    if cs = [name] then some (.file mode content) else rest.lookup cs
  | .dir _ _ _ rest, [] => rest.lookup []
  | .dir name mode sub rest, c :: cs =>
    if c = name then if cs = [] then some (.dir mode) else sub.lookup cs else rest.lookup (c :: cs)

/-- The names are names, and different ones in each directory.  Modes are those of Unix. -/
def Valid : DirContent → Prop
  | .nil => True
  | .file name mode _ rest => (IsName name ∧ mode < 4096) ∧ name ∉ rest.names ∧ rest.Valid
  | .dir name mode sub rest =>
    (IsName name ∧ mode < 4096) ∧ name ∉ rest.names ∧ sub.Valid ∧ rest.Valid

theorem lookup_nil (content : DirContent) : content.lookup [] = none := by
  induction content with
  | nil => rfl
  | file name mode content rest ih => simpa [lookup] using ih
  | dir name mode sub rest _ ih => simpa [lookup] using ih

theorem lookup_of_notMem {content : DirContent} {c : Bytes} (h : c ∉ content.names)
    (cs : List Bytes) : content.lookup (c :: cs) = none := by
  induction content with
  | nil => rfl
  | file name mode content rest ih =>
    rw [names, List.mem_cons, not_or] at h
    rw [lookup, if_neg fun heq => h.1 (List.cons.inj heq).1, ih h.2]
  | dir name mode sub rest _ ih =>
    rw [names, List.mem_cons, not_or] at h
    rw [lookup, if_neg h.1, ih h.2]

end DirContent

/-- What a process creates for it. -/
def masked (env : FileEnv) : FileView → FileView
  | .dir mode => .dir (env.perm mode)
  | .file mode content => .file (env.perm mode) content
  | .link target => .link target

/-! ## Names in the archive -/

theorem cleaned_slash {p : Bytes} {names : List Bytes} (hnames : ∀ c ∈ names, IsName c)
    (h : components p = names) : cleaned (slash :: p) = names := by
  have hpush : ∀ (cs stack : List Bytes), (∀ c ∈ cs, IsName c) →
      cs.foldl (push true) stack = cs.reverse ++ stack := by
    intro cs
    induction cs with
    | nil => exact fun _ _ => rfl
    | cons c cs ih =>
      intro stack hcs
      obtain ⟨hc, hcs⟩ := List.forall_mem_cons.1 hcs
      rw [List.foldl_cons, push_of_ne hc.2, ih _ hcs, List.reverse_cons, List.append_assoc,
        List.singleton_append]
  rw [cleaned, components_cons_slash, h, show isRooted (slash :: p) = true from rfl, hpush _ _ hnames,
    List.append_nil, List.reverse_reverse]

/-- The entry without slashes at the end of the name of a directory. -/
def TarEntry.trimmed (e : TarEntry) : TarEntry :=
  if e.typeflag = .dir then { e with name := e.name.rdropWhile (· = slash) } else e

theorem components_rdropWhile (p : Bytes) : components (p.rdropWhile (· = slash)) = components p := by
  induction p using List.reverseRecOn with
  | nil => rfl
  | append_singleton p b ih =>
    rw [List.rdropWhile_concat]
    split_ifs with hb
    · rw [decide_eq_true_eq] at hb
      rw [ih, hb, components_append p []]
      exact (List.append_nil _).symm
    · rfl

theorem trimmed_fields (e : TarEntry) : components e.trimmed.name = components e.name ∧
    e.trimmed.typeflag = e.typeflag ∧ e.trimmed.mode = e.mode ∧ e.trimmed.content = e.content := by
  unfold TarEntry.trimmed
  split_ifs
  · exact ⟨components_rdropWhile _, rfl, rfl, rfl⟩
  · exact ⟨rfl, rfl, rfl, rfl⟩

/-! ## Extracting a directory -/

/-- A process that meets no faults. -/
structure FilesQuiet (env : FileEnv) : Prop where
  allowed : ∀ q, env.refuses q = false
  room : ∀ q, env.short q = none

section Extract

variable {env : FileEnv} {destDir : Bytes} {t t' t'' : FileTree} {e : TarEntry} {es : List TarEntry}

/-- The entries are extracted one after the other without an error. -/
inductive Extracts (env : FileEnv) (destDir : Bytes) : FileTree → List TarEntry → FileTree → Prop
  | nil (t : FileTree) : Extracts env destDir t [] t
  | cons {t t' t'' : FileTree} {e : TarEntry} {es : List TarEntry}
      (he : extractEntry env destDir t e = (none, t')) (hes : Extracts env destDir t' es t'') :
      Extracts env destDir t (e :: es) t''

theorem Extracts.append {fs : List TarEntry} (h : Extracts env destDir t es t')
    (hfs : Extracts env destDir t' fs t'') : Extracts env destDir t (es ++ fs) t'' := by
  induction h with
  | nil => exact hfs
  | cons he _ ih => exact .cons he (ih hfs)

theorem Extracts.extractLoop {env : RestoreEnv} (h : Extracts env.files destDir t es t')
    (hctx : ∀ i, env.canceled i = false) (i : ℕ) :
    extractLoop env destDir i es .eof t = (none, t') := by
  induction h generalizing i with
  | nil t => simp only [GoQuorum.extractLoop, hctx, Bool.false_eq_true, if_false]
  | cons he _ ih => simp only [GoQuorum.extractLoop, hctx, he, Bool.false_eq_true, if_false, ih]

variable {path : List Bytes} {name : Bytes}

/-- An entry with the relative path of a place leads to that place below the destination. -/
theorem resolve_target (hdest : destDir ≠ []) {names : List Bytes} (hnames : ∀ c ∈ names, IsName c)
    (he : e.trimmed.name = render false names) :
    resolve env.cwd (destDir ++ slash :: clean (slash :: e.name)) =
      resolve env.cwd destDir ++ names := by
  have hcomp : components e.name = names := by
    rw [← (trimmed_fields e).1, he]
    exact components_render fun c hc => (hnames c hc).1
  have hjoin := resolve_join_rooted hdest env.cwd e.name
  rwa [join, if_neg hdest, resolve_clean, cleaned_slash hnames hcomp] at hjoin

theorem join_eq_clean (hdest : destDir ≠ []) (p : Bytes) :
    join destDir p = clean (destDir ++ slash :: p) := by rw [join, if_neg hdest]

variable {mode : ℕ} {data : Bytes}

theorem extractEntry_dir (hdest : destDir ≠ []) (hquiet : FilesQuiet env)
    (hcwd : t.isDir env.cwd = true) (hnames : ∀ c ∈ path ++ [name], IsName c)
    (he : e.trimmed = ⟨render false (path ++ [name]), .dir, mode, data⟩)
    (hdir : t.isDir (resolve env.cwd destDir ++ path) = true)
    (hnone : t.node (resolve env.cwd destDir ++ path ++ [name]) = none) :
    extractEntry env destDir t e =
      (none, t.add (resolve env.cwd destDir ++ path) name (.dir (env.perm mode))) := by
  obtain ⟨-, htype, hmode, -⟩ := trimmed_fields e
  rw [he] at htype hmode
  have htarget : resolve env.cwd (destDir ++ slash :: clean (slash :: e.name)) =
      resolve env.cwd destDir ++ path ++ [name] := by
    rw [resolve_target hdest hnames (by rw [he]), List.append_assoc]
  have hmk : t.mkdirAll env (join destDir (clean (slash :: e.name))) mode =
      (none, t.add (resolve env.cwd destDir ++ path) name (.dir (env.perm mode))) := by
    rw [join_eq_clean hdest]
    exact FileTree.mkdirAll_concat hcwd htarget hdir hnone (hquiet.allowed _)
  simp only [extractEntry, ← htype, ← hmode, hmk, Option.map_none]

theorem extractEntry_reg (hdest : destDir ≠ []) (hquiet : FilesQuiet env)
    (hcwd : t.isDir env.cwd = true) (hnames : ∀ c ∈ path ++ [name], IsName c)
    (he : e.trimmed = ⟨render false (path ++ [name]), .reg, mode, data⟩)
    (hdir : t.isDir (resolve env.cwd destDir ++ path) = true)
    (hnone : t.node (resolve env.cwd destDir ++ path ++ [name]) = none) :
    extractEntry env destDir t e =
      (none, t.addFile (resolve env.cwd destDir ++ path) name (env.perm mode) data) := by
  obtain ⟨-, htype, hmode, hdata⟩ := trimmed_fields e
  rw [he] at htype hmode hdata
  have htarget : resolve env.cwd (destDir ++ slash :: clean (slash :: e.name)) =
      resolve env.cwd destDir ++ path ++ [name] := by
    rw [resolve_target hdest hnames (by rw [he]), List.append_assoc]
  -- the directory of the target is there, so that `MkdirAll` does nothing
  have hparent : t.isDir (resolve env.cwd
      (dir (clean (destDir ++ slash :: clean (slash :: e.name))))) = true := by
    rcases resolve_dir_clean_cases env.cwd (destDir ++ slash :: clean (slash :: e.name)) with
      ⟨c, hc⟩ | hup
    · rw [htarget] at hc
      rw [← (List.append_inj' hc rfl).1]
      exact hdir
    · exact FileTree.isDir_of_above hcwd hup
  have hmk : t.mkdirAll env (dir (join destDir (clean (slash :: e.name)))) 493 = (none, t) := by
    rw [join_eq_clean hdest, dir]
    rw [dir, resolve_clean] at hparent
    exact FileTree.mkdirAll_of_isDir hparent
  have hcreate : t.createFile env (join destDir (clean (slash :: e.name))) mode data =
      (none, t.addFile (resolve env.cwd destDir ++ path) name (env.perm mode) data) := by
    rw [join_eq_clean hdest]
    exact FileTree.createFile_new htarget hdir hnone (hquiet.allowed _) (hquiet.room _)
  simp only [extractEntry, ← htype, ← hmode, ← hdata, hmk, hcreate, Option.map_none]

theorem isName_concat (hpath : ∀ c ∈ path, IsName c) (hname : IsName name) :
    ∀ c ∈ path ++ [name], IsName c := by
  intro c hc
  rcases List.mem_append.1 hc with hc | hc
  · exact hpath c hc
  · rwa [List.mem_singleton.1 hc]

/-- The content stands at the place; nothing else is new. -/
structure Extracted (env : FileEnv) (pos : List Bytes) (content : DirContent) (t t' : FileTree) :
    Prop where
  inside : ∀ cs, t'.view (pos ++ cs) = ((content.lookup cs).map (masked env)).or (t.view (pos ++ cs))
  outside : ∀ q, ¬pos <+: q → t'.view q = t.view q

/-- There is room for the content. -/
def Vacant (pos : List Bytes) (content : DirContent) (t : FileTree) : Prop :=
  ∀ n ∈ content.names, ∀ cs, t.view (pos ++ n :: cs) = none

variable {pos : List Bytes} {content sub rest : DirContent}

theorem Vacant.node (h : Vacant pos content t) (hname : name ∈ content.names) :
    t.node (pos ++ [name]) = none := FileTree.view_eq_none.1 (h name hname [])

theorem Extracted.isDir (h : Extracted env pos content t t') (hvacant : Vacant pos content t)
    {q : List Bytes} (hq : t.isDir q = true) : t'.isDir q = true := by
  have hthere : t.view q ≠ none := by
    obtain ⟨mode, hmode⟩ := FileTree.isDir_iff.1 hq
    intro hnone
    rw [FileTree.view_eq_none.1 hnone] at hmode
    cases hmode
  have hkept : t'.view q = t.view q := by
    by_cases hpre : pos <+: q
    · obtain ⟨cs, rfl⟩ := hpre
      have hnone : content.lookup cs = none := by
        cases cs with
        | nil => exact content.lookup_nil
        | cons c cs => exact DirContent.lookup_of_notMem (fun hc => hthere (hvacant c hc cs)) cs
      rw [h.inside, hnone, Option.map_none, Option.none_or]
    · exact h.outside q hpre
  rwa [FileTree.isDir_of_view_eq hkept]

theorem append_cons_ne {c : Bytes} {cs : List Bytes} (h : c ≠ name ∨ cs ≠ []) :
    pos ++ c :: cs ≠ pos ++ [name] := by
  intro heq
  obtain ⟨rfl, rfl⟩ := List.cons.inj (List.append_cancel_left heq)
  exact h.elim (fun h => h rfl) fun h => h rfl

/-- A tree that is as before but for one new place has room for the rest. -/
theorem Vacant.of_eq (hvacant : Vacant pos rest t) (hname : name ∉ rest.names)
    (h : ∀ q, q ≠ pos ++ [name] → t'.view q = t.view q) : Vacant pos rest t' := by
  intro n hn cs
  have hne : n ≠ name := fun heq => hname (heq ▸ hn)
  rw [h _ (append_cons_ne (Or.inl hne))]
  exact hvacant n hn cs

theorem extracted_file (hname : name ∉ rest.names)
    (hdir : t.isDir pos = true) (hnone : t.node (pos ++ [name]) = none)
    (h : Extracted env pos rest (t.addFile pos name (env.perm mode) data) t') :
    Extracted env pos (.file name mode data rest) t t' := by
  refine ⟨fun cs => ?_, fun q hq => ?_⟩
  · rw [h.inside, DirContent.lookup]
    split_ifs with hcs
    · subst hcs
      rw [DirContent.lookup_of_notMem hname,
        FileTree.view_addFile_self hdir (FileTree.isDir_eq_false_of_none hnone)]
      rfl
    · rw [FileTree.view_addFile_of_ne fun heq => hcs (List.append_cancel_left heq)]
  · have hne : q ≠ pos ++ [name] := fun heq => hq (heq ▸ List.prefix_append _ _)
    rw [h.outside q hq, FileTree.view_addFile_of_ne hne]

theorem extracted_dir (hname : name ∉ rest.names) (hdir : t.isDir pos = true)
    (hnone : t.node (pos ++ [name]) = none)
    (hsub : Extracted env (pos ++ [name]) sub (t.add pos name (.dir (env.perm mode))) t')
    (hrest : Extracted env pos rest t' t'') : Extracted env pos (.dir name mode sub rest) t t'' := by
  -- what is not below the new directory is as it was
  have hother : ∀ q, ¬pos ++ [name] <+: q → t'.view q = t.view q := by
    intro q hq
    have hne : q ≠ pos ++ [name] := fun heq => hq (heq ▸ List.prefix_refl _)
    rw [hsub.outside q hq, FileTree.view_addDir_of_ne hne]
  refine ⟨fun cs => ?_, fun q hq => ?_⟩
  · rw [hrest.inside]
    cases cs with
    | nil =>
      have hshort : ¬pos ++ [name] <+: pos ++ [] := by
        intro hpre
        have hle := hpre.length_le
        simp at hle
      rw [DirContent.lookup, hother _ hshort]
    | cons c cs =>
      rw [DirContent.lookup]
      split_ifs with hc hcs
      · subst hc hcs
        have hat := hsub.inside []
        rw [List.append_nil, DirContent.lookup_nil, Option.map_none, Option.none_or,
          FileTree.view_addDir_self hdir hnone] at hat
        rw [DirContent.lookup_of_notMem hname, hat]
        rfl
      · subst hc
        have hat := hsub.inside cs
        rw [List.append_assoc, List.singleton_append,
          FileTree.view_addDir_of_ne (append_cons_ne (Or.inr hcs))] at hat
        rw [DirContent.lookup_of_notMem hname, Option.map_none, Option.none_or, hat]
      · rw [hother]
        rintro ⟨ds, heq⟩
        rw [List.append_assoc] at heq
        exact hc (List.cons.inj (List.append_cancel_left heq)).1.symm
  · rw [hrest.outside q hq, hother q fun hpre => hq ((List.prefix_append _ _).trans hpre)]

theorem extracts_entries (hdest : destDir ≠ []) (hquiet : FilesQuiet env) (content : DirContent)
    (hvalid : content.Valid) (path : List Bytes) (hpath : ∀ c ∈ path, IsName c) (t : FileTree)
    (hcwd : t.isDir env.cwd = true) (hdir : t.isDir (resolve env.cwd destDir ++ path) = true)
    (hvacant : Vacant (resolve env.cwd destDir ++ path) content t) (es : List TarEntry)
    (hes : es.map TarEntry.trimmed = content.entries path) :
    ∃ t', Extracts env destDir t es t' ∧
      Extracted env (resolve env.cwd destDir ++ path) content t t' := by
  induction content generalizing path t es with
  | nil =>
    rw [List.map_eq_nil_iff.1 hes]
    exact ⟨t, .nil t, fun cs => rfl, fun q _ => rfl⟩
  | file name mode data rest ih =>
    obtain ⟨⟨hname, -⟩, hfresh, hrest⟩ := hvalid
    obtain ⟨e, es, rfl, he, hes⟩ := List.map_eq_cons_iff.1 hes
    have hnone := hvacant.node List.mem_cons_self
    have hentry := extractEntry_reg hdest hquiet hcwd (isName_concat hpath hname) he hdir hnone
    have hroom : Vacant (resolve env.cwd destDir ++ path) rest t := fun n hn =>
      hvacant n (List.mem_cons_of_mem _ hn)
    obtain ⟨t', hes, hex⟩ := ih hrest path hpath _ (FileTree.isDir_addFile hcwd)
      (FileTree.isDir_addFile hdir) (hroom.of_eq hfresh fun q hq => FileTree.view_addFile_of_ne hq) es
      hes
    exact ⟨t', .cons hentry hes, extracted_file hfresh hdir hnone hex⟩
  | dir name mode sub rest ihsub ihrest =>
    obtain ⟨⟨hname, -⟩, hfresh, hsub, hrest⟩ := hvalid
    obtain ⟨e, es, rfl, he, hes⟩ := List.map_eq_cons_iff.1 hes
    obtain ⟨ds, fs, rfl, hds, hfs⟩ := List.map_eq_append_iff.1 hes
    have hnone := hvacant.node List.mem_cons_self
    have hentry := extractEntry_dir hdest hquiet hcwd (isName_concat hpath hname) he hdir hnone
    have hnew : (t.add (resolve env.cwd destDir ++ path) name (.dir (env.perm mode))).isDir
        (resolve env.cwd destDir ++ (path ++ [name])) = true := by
      rw [← List.append_assoc]
      exact FileTree.isDir_addDir hdir hnone _
    have hvacantSub : Vacant (resolve env.cwd destDir ++ (path ++ [name])) sub
        (t.add (resolve env.cwd destDir ++ path) name (.dir (env.perm mode))) := by
      intro n _ cs
      rw [← List.append_assoc, List.append_assoc _ [name], List.singleton_append,
        FileTree.view_addDir_of_ne (append_cons_ne (Or.inr (List.cons_ne_nil _ _)))]
      exact hvacant name List.mem_cons_self (n :: cs)
    obtain ⟨t', hds, hex⟩ := ihsub hsub (path ++ [name]) (isName_concat hpath hname) _
      (FileTree.isDir_add hcwd) hnew hvacantSub ds hds
    have hroom : Vacant (resolve env.cwd destDir ++ path) rest t := fun n hn =>
      hvacant n (List.mem_cons_of_mem _ hn)
    have hvacantRest : Vacant (resolve env.cwd destDir ++ path) rest t' := by
      intro n hn cs
      rw [hex.outside]
      · exact hroom.of_eq hfresh (fun q hq => FileTree.view_addDir_of_ne hq) n hn cs
      · rintro ⟨ds, heq⟩
        simp only [List.append_assoc] at heq
        have hcons := List.append_cancel_left (List.append_cancel_left heq)
        exact hfresh ((List.cons.inj hcons).1 ▸ hn)
    obtain ⟨t'', hfs, hex'⟩ := ihrest hrest path hpath t'
      (hex.isDir hvacantSub (FileTree.isDir_add hcwd))
      (hex.isDir hvacantSub (FileTree.isDir_add hdir)) hvacantRest fs hfs
    rw [← List.append_assoc] at hex
    exact ⟨t'', .cons hentry (hds.append hfs), extracted_dir hfresh hdir hnone hex hex'⟩

end Extract

/-! ## Restoring a directory -/

/-- The destination can be made, and is empty then.  No link is on the way to it. -/
structure ReadyFor (env : FileEnv) (t : FileTree) (destDataDir : Bytes) : Prop where
  quiet : FilesQuiet env
  cwd : t.isDir env.cwd = true
  way : WayUnlinked env t destDataDir
  made : (t.mkdirAll env destDataDir 493).1 = none
  empty : ∀ cs, cs ≠ [] →
    (t.mkdirAll env destDataDir 493).2.view (resolve env.cwd destDataDir ++ cs) = none

theorem extractTarGz_eq {env : RestoreEnv} {fmt : Formats} {t : FileTree}
    {archivePath destDir data : Bytes} {mode : ℕ} {content : DirContent} {entries : List TarEntry}
    (hvalid : content.Valid) (hctx : ∀ i, env.canceled i = false) (hquiet : FilesQuiet env.files)
    (hdest : destDir ≠ []) (hcwd : t.isDir env.files.cwd = true)
    (hdir : t.isDir (resolve env.files.cwd destDir) = true)
    (hempty : ∀ cs, cs ≠ [] → t.view (resolve env.files.cwd destDir ++ cs) = none)
    (hread : t.readFile env.files archivePath = .ok data)
    (hentries : fmt.readArchive data = (entries, .eof))
    (hwalk : entries.map TarEntry.trimmed = archiveEntries mode content) :
    ∃ t', extractTarGz env fmt t archivePath destDir = (none, t') ∧
      Extracted env.files (resolve env.files.cwd destDir) content t t' := by
  obtain ⟨e, es, rfl, he, hes⟩ := List.map_eq_cons_iff.1 hwalk
  rw [← List.append_nil (resolve env.files.cwd destDir)] at hdir
  have hvacant : Vacant (resolve env.files.cwd destDir ++ []) content t := by
    intro n _ cs
    rw [List.append_nil]
    exact hempty _ (List.cons_ne_nil _ _)
  obtain ⟨t', hex, hextracted⟩ := extracts_entries hdest hquiet content hvalid []
    (List.forall_mem_nil _) t hcwd hdir hvacant es hes
  -- the first entry is the destination itself
  have hfirst : extractEntry env.files destDir t e = (none, t) := by
    obtain ⟨-, htype, -, -⟩ := trimmed_fields e
    rw [he] at htype
    have hmk : ∀ m, t.mkdirAll env.files (join destDir (clean (slash :: e.name))) m = (none, t) := by
      intro m
      rw [join_eq_clean hdest]
      refine FileTree.mkdirAll_of_isDir ?_
      rw [resolve_target hdest (List.forall_mem_nil _) (by rw [he])]
      exact hdir
    simp only [extractEntry, ← htype, hmk, Option.map_none]
  refine ⟨t', ?_, by rwa [List.append_nil] at hextracted⟩
  rw [extractTarGz, hread]
  simp only [hentries]
  exact (Extracts.cons hfirst hex).extractLoop hctx 2

/-- A directory with a file and a directory with another file. -/
def sampleContent : DirContent :=
  .file (ascii "MANIFEST") 420 [1, 2]
    (.dir (ascii "wal") 493 (.file (ascii "000001.log") 416 [3] .nil) .nil)

theorem sampleContent_valid : sampleContent.Valid := by
  unfold sampleContent
  simp only [DirContent.Valid, DirContent.names]
  decide

theorem archiveTree_ready : ReadyFor sampleFiles archiveTree (ascii "/data") := by
  have hroot : archiveTree.isDir [] = true := FileTree.isDir_iff.2 archiveTree.root
  have hmade : archiveTree.mkdirAll sampleFiles (ascii "/data") 493 =
      (none, archiveTree.add [] (ascii "data") (.dir 493)) :=
    FileTree.mkdirAll_concat (p := ascii "/data") hroot rfl hroot (archiveTree_vacant []) rfl
  refine ⟨⟨fun _ => rfl, fun _ => rfl⟩, hroot, archiveTree_unlinked, by rw [hmade], fun cs hcs => ?_⟩
  have hplace : resolve sampleFiles.cwd (ascii "/data") ++ cs = ascii "data" :: cs := rfl
  rw [hmade, hplace, FileTree.view_addDir_of_ne fun heq => hcs (List.cons.inj heq).2]
  exact FileTree.view_eq_none.2 (archiveTree_vacant cs)

end GoQuorum
