import GoQuorum.Lib.FileTree
import GoQuorum.Lib.Sha256

/-!
# Backups

`internal/backup/backup.go`, with `BackupDB` and `RestoreDB` of `internal/server/backup_api.go`.  A
backup is a compressed archive of the directory that Pebble's checkpoint leaves, and a manifest with
the checksum of the archive.  The formats of the two files are those of Go's library (`Formats`),
and nothing is assumed of them.

`Backup` asks for the checkpoint in a directory that it has just made, and Pebble refuses a
directory that is there.  So it never succeeds (`backup_always_fails`).
-/

namespace GoQuorum

open Lib Lib.Paths

/-! ## Archives -/

inductive TarType where
  | dir
  | reg
  | other
deriving DecidableEq

structure TarEntry where
  name : Bytes
  typeflag : TarType
  mode : ℕ
  content : Bytes
deriving DecidableEq

/-- How an archive ends for its reader. -/
inductive ArchiveEnd where
  | eof
  | badEntry
  /-- The content of an entry breaks off. -/
  | badContent (entry : TarEntry)

structure BackupManifest where
  createdAt : ℤ
  checksum : Bytes
  archiveFile : Bytes
deriving DecidableEq

/-- `archive/tar` over `compress/gzip`, and the JSON form of manifests. -/
structure Formats where
  writeArchive : List TarEntry → Bytes
  readArchive : Bytes → List TarEntry × ArchiveEnd
  marshal : BackupManifest → Bytes
  unmarshal : Bytes → Option BackupManifest

/-- What a directory contains, in the order in which `filepath.Walk` goes through it. -/
inductive DirContent where
  | nil
  | file (name : Bytes) (mode : ℕ) (content : Bytes) (rest : DirContent)
  | dir (name : Bytes) (mode : ℕ) (sub rest : DirContent)

/-- The entries that the walk of `createTarGz` writes below a path. -/
def DirContent.entries (path : List Bytes) : DirContent → List TarEntry
  | .nil => []
  | .file name mode content rest =>
    ⟨render false (path ++ [name]), .reg, mode, content⟩ :: rest.entries path
  | .dir name mode sub rest =>
    ⟨render false (path ++ [name]), .dir, mode, []⟩ ::
      (sub.entries (path ++ [name]) ++ rest.entries path)

/-- All entries of an archive; the first is the directory itself. -/
def archiveEntries (mode : ℕ) (content : DirContent) : List TarEntry :=
  ⟨render false [], .dir, mode, []⟩ :: content.entries []

/-! ## `Backup` -/

inductive BackupError where
  | canceled
  | noStorage
  | createDest (fault : FileFault)
  | tempDir (fault : FileFault)
  | checkpoint (fault : FileFault)
  | archive (fault : FileFault)
  | checksum (fault : FileFault)
  | writeManifest (fault : FileFault)

/-- What a backup meets. -/
structure BackupEnv where
  files : FileEnv
  /-- The answers of `ctx.Err`. -/
  canceled : ℕ → Bool
  now : ℤ
  /-- `os.TempDir`, and the numbers of `os.MkdirTemp`. -/
  tempDir : Bytes
  random : ℕ → ℕ
  /-- Whether the directory of the checkpoint can be removed again. -/
  removes : Bool
  /-- The mode and the content of a checkpoint in a new directory. -/
  checkpoint : Except FileFault (ℕ × DirContent)
  /-- The walk fails, and what the archive holds then. -/
  walk : Option (FileFault × Bytes)
  /-- What the archive holds when the writers have been closed.  Errors of closing are not looked
  at. -/
  close : Bytes → Bytes
  readBack : Option FileFault

def hexDigit (n : ℕ) : UInt8 := UInt8.ofNat (if n < 10 then 48 + n else 87 + n)

/-- `hex.EncodeToString`. -/
def hexEncode (bs : Bytes) : Bytes :=
  bs.flatMap fun b => [hexDigit (b.toNat / 16), hexDigit (b.toNat % 16)]

/-- `sha256File`. -/
def sha256File (env : FileEnv) (t : FileTree) (path : Bytes) : Except FileFault Bytes :=
  (t.readFile env path).map fun content => hexEncode (sha256 content)

/-- `createTarGz`. -/
def createTarGz (env : BackupEnv) (fmt : Formats) (t : FileTree) (mode : ℕ) (content : DirContent)
    (destPath : Bytes) : Option FileFault × FileTree :=
  match env.walk with
  | some (fault, written) =>
    let (err, t) := t.createFile env.files destPath 438 written
    (some (err.getD fault), t)
  | none => t.createFile env.files destPath 438
      (env.close (fmt.writeArchive (archiveEntries mode content)))

def archiveName (ts : ℤ) : Bytes := ascii "goquorum-backup-" ++ decimalInt ts ++ ascii ".tar.gz"

def manifestName (ts : ℤ) : Bytes :=
  ascii "goquorum-backup-" ++ decimalInt ts ++ ascii "-manifest.json"

/-- `DB.Checkpoint` of Pebble, which refuses a directory that is there. -/
def checkpoint (env : BackupEnv) (t : FileTree) (destDir : Bytes) :
    Except FileFault (ℕ × DirContent) :=
  match t.stat env.files destDir with
  | .ok _ => .error .alreadyExists
  | .error .notFound => env.checkpoint
  | .error fault => .error fault

/-- `os.MkdirTemp("", "goquorum-checkpoint-*")`. -/
def mkdirTemp (env : BackupEnv) (t : FileTree) : Except FileFault Bytes × FileTree :=
  let dir := if env.tempDir.getLast? = some slash then env.tempDir else env.tempDir ++ [slash]
  t.mkdirTemp env.files (dir ++ ascii "goquorum-checkpoint-") env.random 10000

/-- `Backup` from the checkpoint on. -/
def backupCheckpoint (env : BackupEnv) (fmt : Formats) (t : FileTree)
    (destDir checkpointDir : Bytes) : Except BackupError BackupManifest × FileTree :=
  match checkpoint env t checkpointDir with
  | .error fault => (.error (.checkpoint fault), t)
  | .ok (mode, content) =>
    if env.canceled 1 then (.error .canceled, t)
    else
      let archivePath := join destDir (archiveName env.now)
      match createTarGz env fmt t mode content archivePath with
      | (some fault, t) => (.error (.archive fault), t)
      | (none, t) =>
        match env.readBack, sha256File env.files t archivePath with
        | some fault, _ => (.error (.checksum fault), t)
        | none, .error fault => (.error (.checksum fault), t)
        | none, .ok checksum =>
          let manifest : BackupManifest := ⟨env.now, checksum, archiveName env.now⟩
          match t.createFile env.files (join destDir (manifestName env.now)) 420
              (fmt.marshal manifest) with
          | (some fault, t) => (.error (.writeManifest fault), t)
          | (none, t) => (.ok manifest, t)

/-- `Backup` into a directory.  The directory of the checkpoint is removed at the end. -/
def backup (env : BackupEnv) (fmt : Formats) (t : FileTree) (destDir : Bytes) :
    Except BackupError BackupManifest × FileTree :=
  if env.canceled 0 then (.error .canceled, t)
  else
    match t.mkdirAll env.files destDir 493 with
    | (some fault, t) => (.error (.createDest fault), t)
    | (none, t) =>
      match mkdirTemp env t with
      | (.error fault, t) => (.error (.tempDir fault), t)
      | (.ok checkpointDir, t) =>
        let (result, t) := backupCheckpoint env fmt t destDir checkpointDir
        (result, if env.removes then t.removeAll env.files checkpointDir else t)

/-- `BackupDB`: the path of the archive. -/
def backupDB (env : BackupEnv) (fmt : Formats) (t : FileTree) (hasStorage : Bool)
    (destDir : Bytes) : Except BackupError Bytes × FileTree :=
  if hasStorage then
    match backup { env with canceled := fun _ => false } fmt t destDir with
    | (.ok manifest, t) => (.ok (join destDir manifest.archiveFile), t)
    | (.error err, t) => (.error err, t)
  else (.error .noStorage, t)

/-- `MkdirTemp` has made the directory, so that Pebble refuses it. -/
theorem backupCheckpoint_refused {env : BackupEnv} {t t' : FileTree} {path : Bytes}
    (h : t.mkdir env.files path 448 = (none, t')) (fmt : Formats) (destDir : Bytes) :
    backupCheckpoint env fmt t' destDir path = (.error (.checkpoint .alreadyExists), t') := by
  obtain ⟨v, hv⟩ := (FileTree.mkdir_found h).1
  simp only [backupCheckpoint, checkpoint, hv]

theorem backup_fails (env : BackupEnv) (fmt : Formats) (t : FileTree) (destDir : Bytes) :
    ∃ err t', backup env fmt t destDir = (.error err, t') ∧ t.Grown t' := by
  unfold backup
  by_cases hstart : env.canceled 0 = true
  · rw [if_pos hstart]
    exact ⟨_, t, rfl, .refl t⟩
  · rw [if_neg hstart]
    have hdest := t.grown_mkdirAll env.files destDir 493
    split
    · rename_i heq
      rw [heq] at hdest
      exact ⟨_, _, rfl, hdest⟩
    · rename_i t₁ heq
      rw [heq] at hdest
      have htemp : (∃ fault, mkdirTemp env t₁ = (.error fault, t₁)) ∨ ∃ path t₂,
          t₁.mkdir env.files path 448 = (none, t₂) ∧ mkdirTemp env t₁ = (.ok path, t₂) :=
        t₁.mkdirTemp_cases env.files _ env.random 10000
      rcases htemp with ⟨fault, hfault⟩ | ⟨path, t₂, hmk, hok⟩
      · rw [hfault]
        exact ⟨_, t₁, rfl, hdest⟩
      · obtain ⟨-, hgrown, hremoved⟩ := FileTree.mkdir_found hmk
        rw [hok]
        dsimp only
        rw [backupCheckpoint_refused hmk]
        refine ⟨_, _, rfl, hdest.trans ?_⟩
        split_ifs
        · exact hremoved
        · exact hgrown

inductive RestoreError where
  | canceled
  | noStorage
  | readManifest (path : Bytes) (fault : FileFault)
  | parseManifest
  | checksum (fault : FileFault)
  | mismatch (expected got : Bytes)
  | createDest (fault : FileFault)
  | openArchive (fault : FileFault)
  | readEntry
  | createDir (path : Bytes) (fault : FileFault)
  | createParent (path : Bytes) (fault : FileFault)
  | writeFile (path : Bytes) (fault : FileFault)

structure RestoreEnv where
  files : FileEnv
  /-- The answers of `ctx.Err`. -/
  canceled : ℕ → Bool

/-- `findManifest`. -/
def findManifest (env : FileEnv) (fmt : Formats) (t : FileTree) (dir archiveFile : Bytes) :
    Except RestoreError BackupManifest :=
  let n := archiveFile.length - 7
  let base := if 7 < archiveFile.length ∧ archiveFile.drop n = ascii ".tar.gz" then
    archiveFile.take n else archiveFile
  let manifestPath := join dir (base ++ ascii "-manifest.json")
  match t.readFile env manifestPath with
  | .error fault => .error (.readManifest manifestPath fault)
  | .ok data =>
    match fmt.unmarshal data with
    | none => .error .parseManifest
    | some manifest => .ok manifest

/-- The body of the loop of `extractTarGz`.  Entries that are neither directories nor regular files
are passed over. -/
def extractEntry (env : FileEnv) (destDir : Bytes) (t : FileTree) (e : TarEntry) :
    Option RestoreError × FileTree :=
  let targetPath := join destDir (clean (slash :: e.name))
  match e.typeflag with
  | .dir =>
    let (fault, t) := t.mkdirAll env targetPath e.mode
    (fault.map (.createDir targetPath), t)
  | .reg =>
    match t.mkdirAll env (dir targetPath) 493 with
    | (some fault, t) => (some (.createParent targetPath fault), t)
    | (none, t) =>
      let (fault, t) := t.createFile env targetPath e.mode e.content
      (fault.map (.writeFile targetPath), t)
  | .other => (none, t)

/-- The loop of `extractTarGz`; `i` counts the checks of the context. -/
def extractLoop (env : RestoreEnv) (destDir : Bytes) : ℕ → List TarEntry → ArchiveEnd → FileTree →
    Option RestoreError × FileTree
  | i, [], last, t =>
    if env.canceled i then (some .canceled, t)
    else
      match last with
      | .eof => (none, t)
      | .badEntry => (some .readEntry, t)
      | .badContent e =>
        -- what could be read of a file has been written; other contents are only skipped
        let (err, t) := extractEntry env.files destDir t e
        let broken := if e.typeflag = .reg then
          .writeFile (join destDir (clean (slash :: e.name))) .short else .readEntry
        (some (err.getD broken), t)
  | i, e :: es, last, t =>
    if env.canceled i then (some .canceled, t)
    else
      match extractEntry env.files destDir t e with
      | (some err, t) => (some err, t)
      | (none, t) => extractLoop env destDir (i + 1) es last t

/-- `extractTarGz`. -/
def extractTarGz (env : RestoreEnv) (fmt : Formats) (t : FileTree) (archivePath destDir : Bytes) :
    Option RestoreError × FileTree :=
  match t.readFile env.files archivePath with
  | .error fault => (some (.openArchive fault), t)
  | .ok data =>
    let (entries, last) := fmt.readArchive data
    extractLoop env destDir 2 entries last t

/-- `Restore`. -/
def restore (env : RestoreEnv) (fmt : Formats) (t : FileTree)
    (destDir archiveFile destDataDir : Bytes) : Option RestoreError × FileTree :=
  if env.canceled 0 then (some .canceled, t)
  else
    let archivePath := join destDir archiveFile
    match findManifest env.files fmt t destDir archiveFile with
    | .error err => (some err, t)
    | .ok manifest =>
      match sha256File env.files t archivePath with
      | .error fault => (some (.checksum fault), t)
      | .ok checksum =>
        if checksum ≠ manifest.checksum then (some (.mismatch manifest.checksum checksum), t)
        else if env.canceled 1 then (some .canceled, t)
        else
          match t.mkdirAll env.files destDataDir 493 with
          | (some fault, t) => (some (.createDest fault), t)
          | (none, t) => extractTarGz env fmt t archivePath destDataDir

/-- `RestoreDB`. -/
def restoreDB (env : RestoreEnv) (fmt : Formats) (t : FileTree) (hasStorage : Bool)
    (archiveFile destDataDir : Bytes) : Option RestoreError × FileTree :=
  if hasStorage then
    restore { env with canceled := fun _ => false } fmt t (dir archiveFile) (base archiveFile)
      destDataDir
  else (some .noStorage, t)

/-- Formats in which one archive can be read, and a manifest has nothing but a checksum. -/
def sampleFormats (entries : List TarEntry) : Formats where
  writeArchive := fun _ => [1]
  readArchive := fun bs => if bs = [1] then (entries, .eof) else ([], .badEntry)
  marshal := BackupManifest.checksum
  unmarshal := fun bs => some ⟨0, bs, []⟩

/-- A process at the root that meets no faults. -/
def sampleFiles : FileEnv := ⟨[], 18, fun _ => false, fun _ => none⟩

end GoQuorum
