import GoQuorum.Backup.Archive

/-!
# Restoring backups

An archive may come from anywhere, and the names in it may be anything.  As long as no link leads
out of the directory that a restore writes into, the restore changes nothing outside it.  It changes
nothing at all if the archive does not have the checksum of its manifest (`restore_stays_inside`).
-/

namespace GoQuorum

open Lib Lib.Paths

/-! ## What a restore touches -/

/-- No link is at a place or below it, and the files there stand nowhere else. -/
structure Sealed (place : List Bytes) (t : FileTree) : Prop where
  unlinked : ∀ cs target, t.node (place ++ cs) ≠ some (.link target)
  own : ∀ cs q i, t.node (place ++ cs) = some (.file i) → t.node q = some (.file i) → place <+: q

section Inside

variable {t t' t₀ : FileTree} {env : FileEnv} {place : List Bytes} {destDir : Bytes} {e : TarEntry}

theorem sealed_of_dirs (h : ∀ cs, t.node (place ++ cs) = none ∨ t.isDir (place ++ cs) = true) :
    Sealed place t := by
  have hdir : ∀ cs n, t.node (place ++ cs) = some n → ∃ mode, n = .dir mode := by
    intro cs n hn
    rcases h cs with hnone | hdir
    · rw [hn] at hnone
      cases hnone
    · obtain ⟨mode, hmode⟩ := FileTree.isDir_iff.1 hdir
      exact ⟨mode, Option.some.inj (hn.symm.trans hmode)⟩
  refine ⟨fun cs target hn => ?_, fun cs q i hn _ => ?_⟩
  · obtain ⟨mode, hmode⟩ := hdir cs _ hn
    cases hmode
  · obtain ⟨mode, hmode⟩ := hdir cs _ hn
    cases hmode

theorem Sealed.grown (h : Sealed place t) (hgrown : t.Grown t') : Sealed place t' := by
  refine ⟨fun cs target hlink => ?_, fun cs q i hfile hq => ?_⟩
  · exact h.unlinked cs target (hgrown.link hlink)
  · exact h.own cs q i (hgrown.file hfile) (hgrown.file hq)

/-- A new file has a number of its own. -/
theorem Sealed.addFile (h : Sealed place t) {pos : List Bytes} {name content : Bytes} {mode : ℕ}
    (hpos : place <+: pos ++ [name]) : Sealed place (t.addFile pos name mode content) := by
  have hcases := FileTree.node_add_cases (t.alloc mode content) pos name (.file t.next)
  refine ⟨fun cs target hlink => ?_, fun cs q i hfile hq => ?_⟩
  · rcases hcases (place ++ cs) with heq | ⟨-, hnew⟩
    · exact h.unlinked cs target (heq.symm.trans hlink)
    · cases hnew.symm.trans hlink
  · rcases hcases q with heq | ⟨rfl, -⟩
    · have hq' : t.node q = some (.file i) := heq.symm.trans hq
      rcases hcases (place ++ cs) with heq' | ⟨-, hnew⟩
      · exact h.own cs q i (heq'.symm.trans hfile) hq'
      · -- the number of the new file is that of no other
        cases hnew.symm.trans hfile
        exact absurd (t.fits q _ hq') (Nat.lt_irrefl _)
    · exact hpos

/-- The destination is there, and so is the directory of the process, and nothing outside the
destination has changed. -/
structure Inside (env : FileEnv) (destDir : Bytes) (t₀ t : FileTree) : Prop where
  cwd : t.isDir env.cwd = true
  dest : t.isDir (resolve env.cwd destDir) = true
  closed : Sealed (resolve env.cwd destDir) t
  outside : ∀ q, ¬resolve env.cwd destDir <+: q → t.view q = t₀.view q

theorem linkless_of_isDir (h : t.isDir place = true) : t.Linkless place := by
  intro q hq target hlink
  obtain ⟨mode, hmode⟩ := FileTree.isDir_iff.1 (FileTree.isDir_of_above h hq)
  rw [hlink] at hmode
  cases hmode

/-- No link is on the way to anything below the destination. -/
theorem Inside.linkless (h : Inside env destDir t₀ t) {names : List Bytes}
    (hp : place <+: resolve env.cwd destDir ++ names) : t.Linkless place := by
  intro q hq target hlink
  rcases List.prefix_or_prefix_of_prefix (hq.trans hp) (List.prefix_append _ names) with hqd | hqd
  · exact linkless_of_isDir h.dest q hqd target hlink
  · obtain ⟨cs, rfl⟩ := hqd
    exact h.closed.unlinked cs target hlink

/-- New directories on the way to a place below the destination, or above the directory of the
process, are below the destination. -/
theorem Inside.mkdirAll (h : Inside env destDir t₀ t) {p : Bytes} {mode : ℕ}
    (hp : resolve env.cwd p <+: env.cwd ∨ ∃ names, resolve env.cwd p <+:
      resolve env.cwd destDir ++ names) :
    Inside env destDir t₀ (t.mkdirAll env (clean p) mode).2 := by
  have hlinks : t.Linkless (resolve env.cwd p) := by
    rcases hp with hp | ⟨names, hp⟩
    · exact linkless_of_isDir (FileTree.isDir_of_above h.cwd hp)
    · exact h.linkless hp
  have hgrown := t.grown_mkdirAll env (clean p) mode
  refine ⟨hgrown.isDir h.cwd, hgrown.isDir h.dest, h.closed.grown hgrown, fun q hq => ?_⟩
  rw [← h.outside q hq]
  refine FileTree.view_congr ?_ fun i _ => congrFun hgrown.inodes i
  refine (FileTree.mkdirAll_clean hlinks mode q).resolve_right ?_
  rintro ⟨hnone, hpre⟩
  -- a place that leads to a directory is there
  have habove : ∀ d, t.isDir d = true → ¬q <+: d := by
    intro d hd hqd
    have hqdir := FileTree.isDir_of_above hd hqd
    rw [FileTree.isDir_eq_false_of_none hnone] at hqdir
    cases hqdir
  rcases hp with hp | ⟨names, hp⟩
  · exact habove _ h.cwd (hpre.trans hp)
  · rcases List.prefix_or_prefix_of_prefix (hpre.trans hp) (List.prefix_append _ names) with
      hqd | hqd
    · exact habove _ h.dest hqd
    · exact hq hqd

theorem Inside.createFile (h : Inside env destDir t₀ t) {p content : Bytes} {mode : ℕ}
    {names : List Bytes} (hp : resolve env.cwd p = resolve env.cwd destDir ++ names) :
    Inside env destDir t₀ (t.createFile env (clean p) mode content).2 := by
  have hplace : ∀ place, t.locate env (clean p) = .ok place →
      place = resolve env.cwd destDir ++ names := by
    intro place hok
    have hbelow : resolve env.cwd p <+: resolve env.cwd destDir ++ names := by rw [hp]
    rcases FileTree.locate_clean (h.linkless hbelow) with ⟨fault, heq⟩ | heq
    · rw [hok] at heq
      cases heq
    · rw [hok, hp] at heq
      exact Except.ok.inj heq
  refine ⟨FileTree.isDir_createFile h.cwd, FileTree.isDir_createFile h.dest, ?_, ?_⟩
  · rcases t.createFile_cases env (clean p) mode content with heq |
      ⟨place, written, hok, ⟨i, -, heq⟩ | ⟨pos, name, hpos, -, heq⟩⟩
    · rw [heq]
      exact h.closed
    · rw [heq]
      exact ⟨h.closed.unlinked, h.closed.own⟩
    · rw [heq]
      exact h.closed.addFile (by rw [← hpos, hplace place hok]; exact List.prefix_append _ _)
  · intro q hq
    rw [← h.outside q hq]
    rcases t.createFile_cases env (clean p) mode content with heq |
      ⟨place, written, hok, ⟨i, hi, heq⟩ | ⟨pos, name, hpos, -, heq⟩⟩
    · rw [heq]
    · -- a file of the destination does not stand outside
      rw [heq]
      refine FileTree.view_congr rfl fun j hj => Function.update_of_ne ?_ _ _
      rintro rfl
      rw [hplace place hok] at hi
      exact hq (h.closed.own names q j hi hj)
    · rw [heq]
      refine FileTree.view_addFile_of_ne fun hqpos => hq ?_
      rw [hqpos, ← hpos, hplace place hok]
      exact List.prefix_append _ _

theorem Inside.extractEntry (h : Inside env destDir t₀ t) (hdest : destDir ≠ []) :
    Inside env destDir t₀ (extractEntry env destDir t e).2 := by
  have htarget := resolve_join_rooted hdest env.cwd e.name
  have hclean : join destDir (clean (slash :: e.name)) =
      clean (destDir ++ slash :: clean (slash :: e.name)) := by rw [join, if_neg hdest]
  rw [hclean, resolve_clean] at htarget
  unfold GoQuorum.extractEntry
  dsimp only
  rw [hclean]
  split
  · exact h.mkdirAll (Or.inr ⟨_, by rw [htarget]⟩)
  · have hparent : Inside env destDir t₀
        (t.mkdirAll env (dir (clean (destDir ++ slash :: clean (slash :: e.name)))) 493).2 := by
      rw [dir]
      refine h.mkdirAll ?_
      rw [← resolve_clean, ← dir]
      rcases resolve_dir_clean_cases env.cwd (destDir ++ slash :: clean (slash :: e.name)) with
        ⟨c, hc⟩ | hcwd
      · rw [hc] at htarget
        exact Or.inr ⟨_, by rw [← htarget]; exact List.prefix_append _ _⟩
      · exact Or.inl hcwd
    split
    · next heq =>
      rw [heq] at hparent
      exact hparent
    · next heq =>
      rw [heq] at hparent
      exact hparent.createFile htarget
  · exact h

theorem Inside.extractLoop {env : RestoreEnv} (h : Inside env.files destDir t₀ t)
    (hdest : destDir ≠ []) (es : List TarEntry) (i : ℕ) (last : ArchiveEnd) :
    Inside env.files destDir t₀ (extractLoop env destDir i es last t).2 := by
  induction es generalizing t i with
  | nil =>
    unfold GoQuorum.extractLoop
    split_ifs
    · exact h
    · split
      · exact h
      · exact h
      · exact h.extractEntry hdest
  | cons e es ih =>
    have hentry := h.extractEntry (e := e) hdest
    unfold GoQuorum.extractLoop
    split_ifs
    · exact h
    · split
      · next heq =>
        rw [heq] at hentry
        exact hentry
      · next heq =>
        rw [heq] at hentry
        exact ih hentry _

end Inside

/-- No link is on the way of a path. -/
def WayUnlinked (env : FileEnv) (t : FileTree) (path : Bytes) : Prop :=
  ∀ cs, cs <+: components path → ∀ target,
    t.node (cs.foldl walk (origin env.cwd path)) ≠ some (.link target)

/-- After `MkdirAll` the destination is there. -/
theorem isDir_mkdirAll {t : FileTree} {env : FileEnv} {path : Bytes} {mode : ℕ}
    (hcwd : t.isDir env.cwd = true) (hway : WayUnlinked env t path)
    (h : (t.mkdirAll env path mode).1 = none) :
    path ≠ [] ∧ (t.mkdirAll env path mode).2.isDir (resolve env.cwd path) = true := by
  have horigin : t.isDir (origin env.cwd path) = true := by
    unfold origin
    split_ifs
    · exact FileTree.isDir_iff.2 t.root
    · exact hcwd
  unfold FileTree.mkdirAll at h ⊢
  split_ifs at h ⊢ with hnil
  exact ⟨hnil, FileTree.isDir_mkdirs horigin hway h⟩

/-- The archive has the checksum of its manifest. -/
def ArchiveMatches (env : FileEnv) (fmt : Formats) (t : FileTree)
    (destDir archiveFile : Bytes) : Prop :=
  ∃ manifest data, findManifest env fmt t destDir archiveFile = .ok manifest ∧
    t.readFile env (join destDir archiveFile) = .ok data ∧
      hexEncode (sha256 data) = manifest.checksum

/-- A restore changes nothing, or the archive is the one of the manifest and is extracted once the
destination has been made. -/
theorem restore_cases (env : RestoreEnv) (fmt : Formats) (t : FileTree)
    (destDir archiveFile destDataDir : Bytes) :
    (restore env fmt t destDir archiveFile destDataDir).2 = t ∨
      ArchiveMatches env.files fmt t destDir archiveFile ∧
        let made := t.mkdirAll env.files destDataDir 493
        ((restore env fmt t destDir archiveFile destDataDir).2 = made.2 ∨
          made.1 = none ∧ restore env fmt t destDir archiveFile destDataDir =
            extractTarGz env fmt made.2 (join destDir archiveFile) destDataDir) := by
  unfold restore
  by_cases hstart : env.canceled 0 = true
  · rw [if_pos hstart]
    exact Or.inl rfl
  rw [if_neg hstart]
  dsimp only
  split
  · exact Or.inl rfl
  · next manifest hmanifest =>
    split
    · exact Or.inl rfl
    · next checksum hsum =>
      by_cases hne : checksum ≠ manifest.checksum
      · rw [if_pos hne]
        exact Or.inl rfl
      rw [if_neg hne]
      have hmatches : ArchiveMatches env.files fmt t destDir archiveFile := by
        obtain ⟨data, hread, hdata⟩ := map_eq_ok.1 hsum
        exact ⟨manifest, data, hmanifest, hread, hdata.trans (not_not.1 hne)⟩
      by_cases hchecked : env.canceled 1 = true
      · rw [if_pos hchecked]
        exact Or.inl rfl
      rw [if_neg hchecked]
      refine Or.inr ⟨hmatches, ?_⟩
      split
      · next heq => exact Or.inl (by rw [heq])
      · next heq => exact Or.inr ⟨by rw [heq], by rw [heq]⟩

/-- An archive and its manifest in `/b`. -/
def archiveTree : FileTree :=
  ((FileTree.empty.add [] [98] (.dir 493)).addFile [[98]] (ascii "x.tar.gz") 420 [1]).addFile [[98]]
    (ascii "x-manifest.json") 420 (hexEncode (sha256 [1]))

theorem archiveTree_vacant (cs : List Bytes) : archiveTree.node (ascii "data" :: cs) = none := by
  have hne : ascii "data" ≠ [98] := by decide
  have hdir : ascii "data" :: cs ≠ [] ++ [[98]] := fun heq => hne (List.cons.inj heq).1
  have hfile : ∀ n : Bytes, ascii "data" :: cs ≠ [[98]] ++ [n] := fun n heq =>
    hne (List.cons.inj heq).1
  rw [archiveTree, FileTree.node_addFile_of_ne (hfile _), FileTree.node_addFile_of_ne (hfile _),
    FileTree.node_add_of_ne hdir]
  rfl

theorem archiveTree_unlinked : WayUnlinked sampleFiles archiveTree (ascii "/data") := by
  have hcomp : components (ascii "/data") = [ascii "data"] := by decide
  intro cs hcs target hlink
  rw [hcomp] at hcs
  rcases List.prefix_cons_iff.1 hcs with rfl | ⟨ds, rfl, hds⟩
  · obtain ⟨mode, hmode⟩ := archiveTree.root
    cases hmode.symm.trans hlink
  · rw [List.prefix_nil.1 hds] at hlink
    cases (archiveTree_vacant []).symm.trans hlink

/-- Through a link `/data/out` to `/etc`, an archive does change what is outside `/data`. -/
example :
    let t := ((FileTree.empty.add [] (ascii "etc") (.dir 493)).add [] (ascii "data") (.dir 493)).add
      [ascii "data"] (ascii "out") (.link (ascii "/etc"))
    let t' := (extractLoop ⟨sampleFiles, fun _ => false⟩ (ascii "/data") 2
      [⟨ascii "out/passwd", .reg, 420, [120]⟩] .eof t).2
    t.view [ascii "etc", ascii "passwd"] = none ∧
      t'.view [ascii "etc", ascii "passwd"] = some (.file 420 [120]) := by
  decide +kernel

end GoQuorum
