import Neltrik.FileStorage.UseCases
import Neltrik.Lib.FileTree
import Neltrik.Lib.PosixPath

/-! # The local file storage

`LocalFileStorageAdapter` keeps a binary in a file whose path is its key, under `tmp/storage` of the working
directory. Every path it hands to the system is absolute.

`Represents`: the files under that directory are the binaries of a map, and the directories are those on
their ways. Each operation on a tree that represents a map answers as the map does, keeps to that directory
and leaves a tree that represents the map afterwards (`perform_answered`), so any run from a fresh tree does
(`run_implements_map`). -/

namespace Neltrik.FileStorage.LocalFileStorage

open Neltrik.Lib Neltrik.Lib.FileTree Neltrik.Lib.PosixPath
open Neltrik.FileStorage.Persistence

/-! ## `node:fs/promises` -/

/-- What the disk has. -/
abbrev Disk := FileSystem Name Bytes

/-- A call of `fs/promises`. -/
abbrev Fs := Effect Disk Errno

/-- The entry that a path names; a path with a NUL is refused. -/
def locate (path : List Char) : Except Errno (List Name) :=
  if '\x00' ∈ path then .error .invalidArgument else .ok (resolve path)

namespace Fs

/-- `mkdir` with `recursive`. -/
def mkdir (path : List Char) : Fs PUnit := Effect.change fun disk => do disk.makeDirs (← locate path)

/-- The file is made or written over. -/
def writeFile (path : List Char) (buffer : Bytes) : Fs PUnit :=
  Effect.change fun disk => do disk.writeFile buffer (← locate path)

/-- The bytes of a file. -/
def readFile (path : List Char) : Fs Bytes := do
  Effect.lift ((← Effect.read).readFile (← Effect.lift (locate path)))

/-- `rm` with `force`. -/
def rm (path : List Char) : Fs PUnit := Effect.change fun disk => do disk.rm (← locate path)

/-- `rmdir`, for an empty directory only. -/
def rmdir (path : List Char) : Fs PUnit := Effect.change fun disk => do disk.rmdir (← locate path)

/-- It throws when there is nothing. -/
def access (path : List Char) : Fs PUnit := do
  Effect.lift ((← Effect.read).access (← Effect.lift (locate path)))

end Fs

/-- `readdir` with `withFileTypes`. -/
def readdir (order : ReadOrder Name) (disk : Disk) (path : List Char) : Except Errno (List (Dirent Name)) := do
  FileSystem.readdir order disk (← locate path)

section Written
variable {p : List Name} {front back : Bool} (hp : p ≠ [])
include hp

theorem locate_written : locate (written front p back) = .ok p := by
  rw [locate, if_neg not_mem_written, resolve_written hp]

theorem mkdir_written : Fs.mkdir (written front p back) = Effect.change fun disk => disk.makeDirs p := by
  unfold Fs.mkdir
  rw [locate_written hp]
  rfl

theorem writeFile_written (buffer : Bytes) :
    Fs.writeFile (written front p back) buffer = Effect.change fun disk => disk.writeFile buffer p := by
  unfold Fs.writeFile
  rw [locate_written hp]
  rfl

theorem readFile_written (disk : Disk) : Fs.readFile (written front p back) disk = (disk.readFile p, disk) := by
  unfold Fs.readFile
  rw [locate_written hp]
  rfl

theorem rm_written : Fs.rm (written front p back) = Effect.change fun disk => disk.rm p := by
  unfold Fs.rm
  rw [locate_written hp]
  rfl

theorem rmdir_written : Fs.rmdir (written front p back) = Effect.change fun disk => disk.rmdir p := by
  unfold Fs.rmdir
  rw [locate_written hp]
  rfl

theorem access_written (disk : Disk) : Fs.access (written front p back) disk = (disk.access p, disk) := by
  unfold Fs.access
  rw [locate_written hp]
  rfl

theorem readdir_written (order : ReadOrder Name) (disk : Disk) :
    readdir order disk (written front p back) = FileSystem.readdir order disk p := by
  unfold readdir
  rw [locate_written hp]
  rfl

end Written

section Readdir
variable {order : ReadOrder Name} {disk : Disk} {path : List Char} {entries : List (Dirent Name)} {entry : Dirent Name}

theorem readdir_eq_ok (h : readdir order disk path = .ok entries) :
    '\x00' ∉ path ∧ disk.get (resolve path) = some .dir ∧ entries = order.arrange (disk.children (resolve path)) := by
  obtain ⟨p, hlocate, hread⟩ := Effect.except_bind_eq_ok.mp h
  unfold locate at hlocate
  by_cases hnul : '\x00' ∈ path
  · rw [if_pos hnul] at hlocate
    cases hlocate
  · rw [if_neg hnul] at hlocate
    cases hlocate
    by_cases hdir : disk.get (resolve path) = some .dir
    · rw [FileSystem.readdir_ok hdir] at hread
      cases hread
      exact ⟨hnul, hdir, rfl⟩
    · obtain ⟨e, he⟩ := FileSystem.readdir_refused (o := order) hdir
      rw [he] at hread
      cases hread

/-- An entry is deeper than its directory, and nothing is deeper than the deepest path. -/
theorem height_sub_lt (h : readdir order disk path = .ok entries) (hentry : entry ∈ entries) :
    disk.height - (resolve (join [path, entry.name.chars])).length < disk.height - (resolve path).length := by
  obtain ⟨hnul, -, rfl⟩ := readdir_eq_ok h
  obtain ⟨e, he, -⟩ := FileSystem.mem_children.mp ((order.perm _).mem_iff.mp hentry)
  have hlt := FileSystem.length_lt_height (by rw [he]; exact Option.some_ne_none e : disk.get (entry.name :: resolve path) ≠ none)
  rw [resolve_join_name hnul, List.length_cons]
  omega

end Readdir

/-! ## The adapter -/

/-- The name `tmp`. -/
def tmpName : Name := ⟨['t', 'm', 'p'], by decide⟩

/-- The name `storage`. -/
def storageName : Name := ⟨['s', 't', 'o', 'r', 'a', 'g', 'e'], by decide⟩

/-- The working directory, from its last name up, and the order in which the system reads a directory. -/
structure LocalFileStorageAdapter where
  cwd : List Name
  order : ReadOrder Name

namespace LocalFileStorageAdapter
variable (a : LocalFileStorageAdapter)

/-- The names of `basePath`. -/
def base : List Name := storageName :: tmpName :: a.cwd

/-- The directory of the adapter. -/
def basePath : List Char := written true a.base false

/-- The constructor, which does not wait for the directory or for an error. -/
def constructed : Fs PUnit := do
  let _ ← Effect.attempt (Fs.mkdir a.basePath)
  return ⟨⟩

/-- `path.join` of the directory and the key. -/
def resolvePath (key : String) : List Char := join [a.basePath, key.toList]

/-- The directories of the file, and the file. -/
def upload (key : String) (buffer : Bytes) (_mimeType : String) : Fs PUnit := do
  let filePath := a.resolvePath key
  Fs.mkdir (dirname filePath)
  Fs.writeFile filePath buffer

/-- The file of the key. -/
def download (key : String) : Fs Bytes := Fs.readFile (a.resolvePath key)

theorem base_ne_nil : a.base ≠ [] := List.cons_ne_nil _ _

theorem length_basePath : 1 < a.basePath.length := by
  obtain ⟨c, rest, hslashed, -⟩ := exists_head a.base_ne_nil
  unfold basePath written
  rw [hslashed]
  show 1 < (('/' :: c :: rest) ++ []).length
  simp

/-- From the directory of the file up to that of the adapter. -/
def removeEmptyParentDirs (dirPath : List Char) : Fs PUnit :=
  if _h : a.basePath <+: dirPath ∧ dirPath ≠ a.basePath then do
    match ← Effect.attempt (Fs.rmdir dirPath) with
    | .ok _ => removeEmptyParentDirs (dirname dirPath)
    | .error _ => return ⟨⟩
  else return ⟨⟩
termination_by dirPath.length
decreasing_by
  exact length_dirname_lt (Nat.lt_of_lt_of_le a.length_basePath _h.1.length_le)

/-- The file, and the directories it leaves empty. -/
def delete (key : String) : Fs PUnit := do
  let filePath := a.resolvePath key
  Fs.rm filePath
  a.removeEmptyParentDirs (dirname filePath)

/-- The file can be accessed. -/
def «exists» (key : String) : Fs Bool := do
  match ← Effect.attempt (Fs.access (a.resolvePath key)) with
  | .ok _ => return true
  | .error _ => return false

/-- The keys of the files below a directory. -/
def walk (disk : Disk) (dirPath pre : List Char) : List String :=
  match _hentries : readdir a.order disk dirPath with
  | .error _ => []
  | .ok entries => entries.attach.flatMap fun ⟨entry, _hentry⟩ =>
    let entryPath := join [dirPath, entry.name.chars]
    let entryKey := join [pre, entry.name.chars]
    if entry.isDirectory then walk disk entryPath entryKey
    else if entry.isFile then [String.ofList entryKey]
    else []
termination_by disk.height - (resolve dirPath).length
decreasing_by
  -- an entry is one segment longer than its directory
  exact height_sub_lt _hentries _hentry

section Walk
variable {a} {disk : Disk} {dirPath pre : List Char} {entries : List (Dirent Name)}

theorem walk_of_error {e : Errno} (h : readdir a.order disk dirPath = .error e) : a.walk disk dirPath pre = [] := by
  rw [walk]
  split
  · rfl
  · next h' => exact absurd (h.symm.trans h') nofun

theorem walk_of_ok (h : readdir a.order disk dirPath = .ok entries) : a.walk disk dirPath pre =
    entries.flatMap fun entry =>
      if entry.isDirectory then a.walk disk (join [dirPath, entry.name.chars]) (join [pre, entry.name.chars])
      else [String.ofList (join [pre, entry.name.chars])] := by
  rw [walk]
  split
  · next h' => exact absurd (h.symm.trans h') nofun
  · next es h' =>
    have hes : es = entries := Except.ok.inj (h'.symm.trans h)
    rw [hes, List.flatMap_subtype, List.unattach_attach]
    intro entry _
    cases hdirectory : entry.isDirectory <;> simp [Dirent.isFile, hdirectory]

end Walk

/-- The keys below a directory that may be missing. -/
def list (pre : String) : Fs (List String) := do
  let normalizedPrefix := if hasTrailingSeparator pre.toList then pre else pre ++ "/"
  return a.walk (← Effect.read) (a.resolvePath normalizedPrefix) normalizedPrefix.toList

end LocalFileStorageAdapter

/-! ## Keys -/

/-- The first part of a key. -/
def tenantsName : Name := ⟨['t', 'e', 'n', 'a', 'n', 't', 's'], by decide⟩

/-- The third part of a key. -/
def filesName : Name := ⟨['f', 'i', 'l', 'e', 's'], by decide⟩

theorem isName_version (version : ℕ) : IsName ('v' :: Nat.toDigits 10 version) := by
  have hdigit : ∀ c, c.isDigit = false → 'v' ≠ c → c ∉ 'v' :: Nat.toDigits 10 version := by
    intro c hc hv hmem
    rcases List.mem_cons.mp hmem with heq | hmem
    · exact hv heq.symm
    · rw [Nat.isDigit_of_mem_toDigits (by decide) (by decide) hmem] at hc
      cases hc
  exact ⟨List.cons_ne_nil _ _, fun h => absurd (List.cons.inj h).1 (by decide),
    fun h => absurd (List.cons.inj h).1 (by decide), hdigit '/' (by decide) (by decide),
    hdigit '\x00' (by decide) (by decide)⟩

/-- The parts of a key of a version, each of which may be the name of an entry. -/
structure StorageKey where
  tenantId : Name
  fileId : Name
  version : ℕ
  name : Name
  deriving DecidableEq

/-- The key that is a path. -/
def keyText (p : List Name) : String := String.ofList (written false p false)

namespace StorageKey

/-- The key as it is stored. -/
def text (k : StorageKey) : String :=
  UseCases.storageKey (String.ofList k.tenantId.chars) (String.ofList k.fileId.chars) k.version
    (String.ofList k.name.chars)

/-- The directory of the file, and the file. -/
def dir (k : StorageKey) : List Name :=
  [⟨'v' :: Nat.toDigits 10 k.version, isName_version k.version⟩, k.fileId, filesName, k.tenantId, tenantsName]

/-- Its names, the file first. -/
def path (k : StorageKey) : List Name := k.name :: k.dir

theorem text_eq (k : StorageKey) : k.text = keyText k.path := by
  have hwritten : written false k.path false = slashed [tenantsName.chars, k.tenantId.chars, filesName.chars,
      k.fileId.chars, 'v' :: Nat.toDigits 10 k.version, k.name.chars] := List.append_nil _
  refine String.toList_injective ?_
  rw [keyText, String.toList_ofList, hwritten]
  unfold text UseCases.storageKey
  simp only [String.toList_append, Nat.toString_eq_repr, Nat.toList_repr, slashed_cons (List.cons_ne_nil _ _),
    slashed_singleton]
  show "tenants/".toList ++ (String.ofList k.tenantId.chars).toList ++ "/files/".toList ++
    (String.ofList k.fileId.chars).toList ++ "/v".toList ++ Nat.toDigits 10 k.version ++ "/".toList ++
    (String.ofList k.name.chars).toList = _
  rw [String.toList_ofList, String.toList_ofList, String.toList_ofList]
  simp [tenantsName, filesName]

end StorageKey

theorem keyText_inj {p q : List Name} : keyText p = keyText q ↔ p = q := by
  refine ⟨fun h => ?_, fun h => by rw [h]⟩
  have hwritten : written false p false = written false q false := String.ofList_injective h
  by_cases hp : p = []
  · by_cases hq : q = []
    · rw [hp, hq]
    · rw [hp] at hwritten
      exact absurd hwritten.symm (written_ne_nil hq)
  · by_cases hq : q = []
    · rw [hq] at hwritten
      exact absurd hwritten (written_ne_nil hp)
    · exact (written_inj hp hq).mp hwritten

/-- A directory as a prefix of keys, with a slash at the end or not. -/
structure Directory where
  path : List Name
  path_ne_nil : path ≠ []
  slash : Bool

/-- The prefix as it is asked for. -/
def Directory.text (d : Directory) : String := String.ofList (written false d.path d.slash)

/-- The prefix with a slash at its end. -/
def Directory.slashed (d : Directory) : String := String.ofList (written false d.path true)

/-! ## What the disk holds -/

/-- The binary whose key is the path. -/
def stored (s : Storage) (p : List Name) : Option Bytes := s.download (keyText p)

/-- Under the storage directory stand the binaries, each at its key, and the directories that lead to one. -/
structure Represents (a : LocalFileStorageAdapter) (disk : Disk) (s : Storage) : Prop where
  holds : Holds disk a.base (stored s) []
  keys : ∀ key, s.download key ≠ none → ∃ k : StorageKey, key = k.text

section Represents
variable {a : LocalFileStorageAdapter} {disk : Disk} {s : Storage} {p : List Name}

theorem StorageKey.length_path (k : StorageKey) : k.path.length = 6 := rfl

/-- Keys are equally long, so none is under another one. -/
theorem StorageKey.path_eq_of_suffix {k k' : StorageKey} (h : k.path <:+ k'.path) : k.path = k'.path :=
  h.eq_of_length (by rw [k.length_path, k'.length_path])

theorem Represents.exists_key (h : Represents a disk s) (hp : stored s p ≠ none) :
    ∃ k : StorageKey, p = k.path ∧ s.download k.text ≠ none := by
  obtain ⟨k, hk⟩ := h.keys (keyText p) hp
  refine ⟨k, keyText_inj.mp (hk.trans k.text_eq), ?_⟩
  rw [← hk]
  exact hp

/-- No binary is above a key. -/
theorem Represents.stored_above (h : Represents a disk s) (k : StorageKey) (hp : p <:+ k.dir) : stored s p = none := by
  by_contra hne
  obtain ⟨k', rfl, -⟩ := h.exists_key hne
  have hlength := hp.length_le
  have hdir : k.dir.length = 5 := rfl
  rw [k'.length_path, hdir] at hlength
  omega

/-- Nor below one. -/
theorem Represents.not_leads (h : Represents a disk s) (k : StorageKey) : ¬ Leads (stored s) k.path := by
  rintro ⟨p, hp, hkp, hne⟩
  obtain ⟨k', rfl, -⟩ := h.exists_key hp
  exact hne (StorageKey.path_eq_of_suffix hkp)

theorem stored_key (s : Storage) (k : StorageKey) : stored s k.path = s.download k.text := by rw [stored, k.text_eq]

theorem stored_upload (s : Storage) (k : StorageKey) (buffer : Bytes) :
    stored (s.upload k.text buffer) = Function.update (stored s) k.path (some buffer) := by
  funext p
  rw [stored, Storage.download_upload, k.text_eq, Function.update_apply]
  exact if_congr keyText_inj rfl rfl

theorem stored_delete (s : Storage) (k : StorageKey) :
    stored (s.delete k.text) = Function.update (stored s) k.path none := by
  funext p
  rw [stored, Storage.download_delete, k.text_eq, Function.update_apply]
  exact if_congr keyText_inj rfl rfl

end Represents

/-! ## The operations -/

section Operations
variable {a : LocalFileStorageAdapter} {disk : Disk} {s : Storage} {m : List Name → Option Bytes} {w : List Name}

theorem append_base_ne_nil (a : LocalFileStorageAdapter) (p : List Name) : p ++ a.base ≠ [] :=
  List.append_ne_nil_of_right_ne_nil p a.base_ne_nil

theorem resolvePath_written {p : List Name} (hp : p ≠ []) (back : Bool) :
    a.resolvePath (String.ofList (written false p back)) = written true (p ++ a.base) back := by
  rw [LocalFileStorageAdapter.resolvePath, String.toList_ofList]
  exact join_written a.base_ne_nil hp

theorem resolvePath_key (a : LocalFileStorageAdapter) (k : StorageKey) :
    a.resolvePath k.text = written true (k.path ++ a.base) false := by
  rw [k.text_eq]
  exact resolvePath_written (List.cons_ne_nil _ _) false

theorem dirname_key (a : LocalFileStorageAdapter) (k : StorageKey) :
    dirname (written true (k.path ++ a.base) false) = written true (k.dir ++ a.base) false :=
  dirname_written k.name (append_base_ne_nil a k.dir)

/-- The loop ends at the storage directory. -/
theorem removeEmptyParentDirs_base (disk : Disk) : a.removeEmptyParentDirs a.basePath disk = (.ok ⟨⟩, disk) := by
  rw [LocalFileStorageAdapter.removeEmptyParentDirs, dif_neg fun h => h.2 rfl]
  rfl

theorem removeEmptyParentDirs_below (name : Name) (w : List Name) (disk : Disk) :
    a.removeEmptyParentDirs (written true (name :: w ++ a.base) false) disk =
      match disk.rmdir (name :: w ++ a.base) with
      | .ok disk' => a.removeEmptyParentDirs (written true (w ++ a.base) false) disk'
      | .error _ => (.ok ⟨⟩, disk) := by
  have hunder : a.basePath <+: written true (name :: w ++ a.base) false ∧
      written true (name :: w ++ a.base) false ≠ a.basePath := by
    refine ⟨written_isPrefix a.base_ne_nil (name :: w), fun heq => ?_⟩
    have hpath := (written_inj (append_base_ne_nil a (name :: w)) a.base_ne_nil).mp heq
    exact absurd (List.self_eq_append_left.mp hpath.symm) (List.cons_ne_nil name w)
  rw [LocalFileStorageAdapter.removeEmptyParentDirs, dif_pos hunder, Effect.attempt_bind,
    rmdir_written (append_base_ne_nil a (name :: w)), List.cons_append, dirname_written name (append_base_ne_nil a w)]
  cases hrmdir : disk.rmdir (name :: (w ++ a.base)) with
  | ok disk' => rw [Effect.change_of_ok hrmdir]
  | error e =>
    rw [Effect.change_of_error hrmdir]
    rfl

/-- **The directories that are empty now are removed.** -/
theorem removeEmptyParentDirs_way (h : Holds disk a.base m w) : ∃ disk',
    a.removeEmptyParentDirs (written true (w ++ a.base) false) disk = (.ok ⟨⟩, disk') ∧ Holds disk' a.base m [] ∧
      SameOutside a.base disk disk' := by
  induction w generalizing disk with
  | nil => exact ⟨disk, removeEmptyParentDirs_base disk, h, .refl⟩
  | cons name w ih =>
    rw [removeEmptyParentDirs_below]
    rcases h.rmdir_way with ⟨disk₁, hrmdir, hholds, hsame⟩ | ⟨⟨e, hrmdir⟩, hholds⟩
    · obtain ⟨disk', hrest, hholds', hsame'⟩ := ih hholds
      refine ⟨disk', ?_, hholds', hsame.trans hsame'⟩
      rw [hrmdir]
      exact hrest
    · refine ⟨disk, ?_, hholds, .refl⟩
      rw [hrmdir]

/-- Where nothing was removed nothing is removed above. -/
theorem removeEmptyParentDirs_none (h : Holds disk a.base m []) (w : List Name) :
    a.removeEmptyParentDirs (written true (w ++ a.base) false) disk = (.ok ⟨⟩, disk) := by
  cases w with
  | nil => exact removeEmptyParentDirs_base disk
  | cons name w =>
    obtain ⟨e, hrmdir⟩ := h.rmdir_refused (List.cons_ne_nil name w)
    rw [removeEmptyParentDirs_below, hrmdir]

/-- What changes at a key of the storage has no other keys. -/
theorem Represents.keys_of_off (h : Represents a disk s) {s' : Storage} (k : StorageKey)
    (hoff : ∀ key, key ≠ k.text → s'.download key = s.download key) :
    ∀ key, s'.download key ≠ none → ∃ k' : StorageKey, key = k'.text := by
  intro key hkey
  by_cases heq : key = k.text
  · exact ⟨k, heq⟩
  · rw [hoff key heq] at hkey
    exact h.keys key hkey

theorem upload_ok (h : Represents a disk s) (k : StorageKey) (buffer : Bytes) (mimeType : String) : ∃ disk',
    a.upload k.text buffer mimeType disk = (.ok ⟨⟩, disk') ∧ Represents a disk' (s.upload k.text buffer) ∧
      SameOutside a.base disk disk' := by
  obtain ⟨disk₁, disk₂, hmake, hwrite, hholds, hsame⟩ :=
    h.holds.put_value (fun q hq => h.stored_above k hq) (h.not_leads k) buffer
  refine ⟨disk₂, ?_, ⟨?_, fun key hkey => ?_⟩, hsame⟩
  · rw [LocalFileStorageAdapter.upload, resolvePath_key, dirname_key, mkdir_written (append_base_ne_nil a k.dir),
      writeFile_written (append_base_ne_nil a k.path)]
    exact (Effect.bind_of_ok (Effect.change_of_ok hmake)).trans (Effect.change_of_ok hwrite)
  · rw [stored_upload]
    exact hholds
  · refine h.keys_of_off k (fun key' hne => ?_) key hkey
    rw [Storage.download_upload, if_neg hne]

theorem delete_ok (h : Represents a disk s) (k : StorageKey) : ∃ disk',
    a.delete k.text disk = (.ok ⟨⟩, disk') ∧ Represents a disk' (s.delete k.text) ∧ SameOutside a.base disk disk' := by
  have hkeys : ∀ key, (s.delete k.text).download key ≠ none → ∃ k' : StorageKey, key = k'.text := by
    refine h.keys_of_off k fun key hne => ?_
    rw [Storage.download_delete, if_neg hne]
  have hdelete : a.delete k.text = Effect.change (fun disk => disk.rm (k.path ++ a.base)) >>= fun _ =>
      a.removeEmptyParentDirs (written true (k.dir ++ a.base) false) := by
    rw [LocalFileStorageAdapter.delete, resolvePath_key, dirname_key, rm_written (append_base_ne_nil a k.path)]
  cases hvalue : stored s k.path with
  | some buffer =>
    obtain ⟨disk₁, hrm, hholds, hsame⟩ := h.holds.remove_value hvalue
    obtain ⟨disk₂, hprune, hholds', hsame'⟩ := removeEmptyParentDirs_way hholds
    refine ⟨disk₂, ?_, ⟨?_, hkeys⟩, hsame.trans hsame'⟩
    · rw [hdelete]
      exact (Effect.bind_of_ok (Effect.change_of_ok hrm)).trans hprune
    · rw [stored_delete]
      exact hholds'
  | none =>
    have hway : ∀ q, q <:+ k.path → stored s q = none := by
      intro q hq
      rcases List.suffix_cons_iff.mp hq with heq | hq
      · rw [heq]
        exact hvalue
      · exact h.stored_above k hq
    have hrm := h.holds.rm_missing hway (h.not_leads k)
    refine ⟨disk, ?_, ⟨?_, hkeys⟩, .refl⟩
    · rw [hdelete]
      exact (Effect.bind_of_ok (Effect.change_of_ok hrm)).trans (removeEmptyParentDirs_none h.holds k.dir)
    · rw [stored_delete, Function.update_eq_self_iff.mpr hvalue.symm]
      exact h.holds

theorem download_cases (h : Represents a disk s) (k : StorageKey) :
    (∃ b, s.download k.text = some b ∧ a.download k.text disk = (.ok b, disk)) ∨
      s.download k.text = none ∧ ∃ e, a.download k.text disk = (.error e, disk) := by
  have hread : ∀ b, disk.readFile (k.path ++ a.base) = .ok b ↔ s.download k.text = some b := by
    intro b
    rw [FileSystem.readFile_eq_ok_iff, h.holds.file, stored_key]
  rw [LocalFileStorageAdapter.download, resolvePath_key, readFile_written (append_base_ne_nil a k.path)]
  cases hresult : disk.readFile (k.path ++ a.base) with
  | ok b => exact .inl ⟨b, (hread b).mp hresult, rfl⟩
  | error e =>
    refine .inr ⟨?_, e, rfl⟩
    cases hvalue : s.download k.text with
    | none => rfl
    | some b =>
      rw [(hread b).mpr hvalue] at hresult
      cases hresult

theorem exists_eq (h : Represents a disk s) (k : StorageKey) :
    a.exists k.text disk = (.ok (s.download k.text).isSome, disk) := by
  have hnone := h.holds.get_eq_none_iff (List.cons_ne_nil k.name k.dir) (h.not_leads k)
  rw [LocalFileStorageAdapter.exists, resolvePath_key, Effect.attempt_bind,
    access_written (append_base_ne_nil a k.path), ← stored_key]
  cases hvalue : stored s k.path with
  | none =>
    have haccess : disk.access (k.path ++ a.base) ≠ .ok () := fun hok =>
      FileSystem.access_eq_ok_iff.mp hok (hnone.mpr hvalue)
    cases hresult : disk.access (k.path ++ a.base) with
    | ok u => exact absurd hresult haccess
    | error e => rfl
  | some b =>
    have haccess : disk.access (k.path ++ a.base) = .ok () := by
      refine FileSystem.access_eq_ok_iff.mpr fun hget => ?_
      rw [show stored s k.path = none from hnone.mp hget] at hvalue
      cases hvalue
    rw [haccess]
    rfl

end Operations

/-! ## Listing -/

section Listing
variable {a : LocalFileStorageAdapter} {disk : Disk} {s : Storage} {q : List Name} {key : String}

/-- The key of a binary whose path goes through `q`. -/
def Through (s : Storage) (q : List Name) (key : String) : Prop :=
  ∃ k : StorageKey, s.download k.text ≠ none ∧ q <:+ k.path ∧ key = k.text

/-- A path goes through one entry of a directory. -/
theorem Through.unique {name name' : Name} (h : Through s (name :: q) key) (h' : Through s (name' :: q) key) :
    name = name' := by
  obtain ⟨k, -, hsuffix, rfl⟩ := h
  obtain ⟨k', -, hsuffix', htext⟩ := h'
  have hpath : k.path = k'.path := keyText_inj.mp (by rw [← k.text_eq, htext, k'.text_eq])
  rw [← hpath] at hsuffix'
  rcases List.suffix_or_suffix_of_suffix hsuffix hsuffix' with hs | hs
  · exact (List.cons.inj (hs.eq_of_length rfl)).1
  · exact (List.cons.inj (hs.eq_of_length rfl)).1.symm

/-- Where a binary goes through there is an entry. -/
theorem Represents.get_of_through (h : Represents a disk s) (hq : q ≠ []) (hkey : Through s q key) :
    disk.get (q ++ a.base) ≠ none := by
  obtain ⟨k, hk, hsuffix, -⟩ := hkey
  rw [← stored_key] at hk
  by_cases heq : q = k.path
  · obtain ⟨b, hb⟩ := Option.ne_none_iff_exists'.mp hk
    rw [heq, (h.holds.file k.path b).mpr hb]
    exact Option.some_ne_none _
  · rw [(h.holds.dir q hq).mpr (.inl ⟨k.path, hk, hsuffix, heq⟩)]
    exact Option.some_ne_none _

/-- A file is gone through by its own key alone. -/
theorem Represents.through_file (h : Represents a disk s) {b : Bytes} (hfile : disk.get (q ++ a.base) = some (.file b)) :
    Through s q key ↔ key = keyText q := by
  have hvalue := (h.holds.file q b).mp hfile
  obtain ⟨k, rfl, hk⟩ := h.exists_key (by rw [hvalue]; exact Option.some_ne_none b)
  constructor
  · rintro ⟨k', -, hsuffix, rfl⟩
    rw [k'.text_eq, StorageKey.path_eq_of_suffix hsuffix]
  · rintro rfl
    exact ⟨k, hk, List.suffix_rfl, k.text_eq.symm⟩

/-- A directory is gone through by what goes through its entries. -/
theorem Represents.through_dir (h : Represents a disk s) (hdir : disk.get (q ++ a.base) = some .dir) :
    Through s q key ↔ ∃ entry ∈ disk.children (q ++ a.base), Through s (entry.name :: q) key := by
  constructor
  · rintro ⟨k, hk, ⟨t, ht⟩, rfl⟩
    rcases List.eq_nil_or_concat t with rfl | ⟨t, name, rfl⟩
    · have hvalue := h.holds.value_eq_none hdir
      rw [List.nil_append] at ht
      rw [ht, stored_key] at hvalue
      exact absurd hvalue hk
    · rw [List.concat_eq_append, List.append_assoc, List.singleton_append] at ht
      have hthrough : Through s (name :: q) k.text := ⟨k, hk, ⟨t, ht⟩, rfl⟩
      obtain ⟨e, he⟩ := Option.ne_none_iff_exists'.mp (h.get_of_through (List.cons_ne_nil name q) hthrough)
      exact ⟨⟨name, e.isDirectory⟩, FileSystem.mem_children.mpr ⟨e, he, rfl⟩, hthrough⟩
  · rintro ⟨entry, -, k, hk, hsuffix, rfl⟩
    exact ⟨k, hk, (List.suffix_cons entry.name q).trans hsuffix, rfl⟩

theorem Represents.through_none (h : Represents a disk s) (hq : q ≠ []) (hget : disk.get (q ++ a.base) = none) :
    ¬ Through s q key := fun hkey => h.get_of_through hq hkey hget

/-- What a walk is to find: the keys that go through `q`, each once. -/
structure Finds (s : Storage) (q : List Name) (found : List String) : Prop where
  nodup : found.Nodup
  mem : ∀ key, key ∈ found ↔ Through s q key

theorem Represents.finds_none (h : Represents a disk s) (hq : q ≠ []) (hget : disk.get (q ++ a.base) = none) :
    Finds s q [] :=
  ⟨List.nodup_nil, fun _ => iff_of_false List.not_mem_nil (h.through_none hq hget)⟩

theorem Represents.finds_file (h : Represents a disk s) {b : Bytes} (hfile : disk.get (q ++ a.base) = some (.file b)) :
    Finds s q [keyText q] :=
  ⟨List.nodup_singleton _, fun _ => List.mem_singleton.trans (h.through_file hfile).symm⟩

/-- A directory, from its entries. -/
theorem Represents.finds_dir (h : Represents a disk s) (hdir : disk.get (q ++ a.base) = some .dir)
    {found : Dirent Name → List String}
    (hentry : ∀ entry ∈ disk.children (q ++ a.base), Finds s (entry.name :: q) (found entry)) :
    Finds s q ((a.order.arrange (disk.children (q ++ a.base))).flatMap found) := by
  have hmem : ∀ {entry}, entry ∈ a.order.arrange (disk.children (q ++ a.base)) ↔
      entry ∈ disk.children (q ++ a.base) := (a.order.perm _).mem_iff
  refine ⟨?_, fun key => ?_⟩
  · refine List.nodup_flatMap.mpr ⟨fun entry hin => (hentry entry (hmem.mp hin)).nodup, ?_⟩
    have hdistinct := (FileSystem.children_pairwise disk (q ++ a.base)).perm (a.order.perm _).symm fun hne => hne.symm
    refine List.Pairwise.imp_of_mem ?_ hdistinct
    intro entry entry' hin hin' hne key hkey hkey'
    have hthrough := ((hentry entry (hmem.mp hin)).mem key).mp hkey
    have hthrough' := ((hentry entry' (hmem.mp hin')).mem key).mp hkey'
    exact hne (hthrough.unique hthrough')
  · rw [List.mem_flatMap, h.through_dir hdir]
    constructor
    · rintro ⟨entry, hin, hkey⟩
      exact ⟨entry, hmem.mp hin, ((hentry entry (hmem.mp hin)).mem key).mp hkey⟩
    · rintro ⟨entry, hin, hthrough⟩
      exact ⟨entry, hmem.mpr hin, ((hentry entry hin).mem key).mpr hthrough⟩

/-- **The walk finds the keys that go through a directory, each once.** -/
theorem walk_finds (h : Represents a disk s) (hq : q ≠ []) (back back' : Bool)
    (hfile : ∀ b, disk.get (q ++ a.base) ≠ some (.file b)) :
    Finds s q (a.walk disk (written true (q ++ a.base) back) (written false q back')) := by
  induction hn : disk.height - (q ++ a.base).length using Nat.strong_induction_on generalizing q back back' with
  | _ n ih =>
    have hread : readdir a.order disk (written true (q ++ a.base) back) =
        FileSystem.readdir a.order disk (q ++ a.base) := readdir_written (append_base_ne_nil a q) a.order disk
    cases hget : disk.get (q ++ a.base) with
    | none =>
      obtain ⟨e, herror⟩ := FileSystem.readdir_refused (o := a.order) (by rw [hget]; exact nofun)
      rw [LocalFileStorageAdapter.walk_of_error (hread.trans herror)]
      exact h.finds_none hq hget
    | some e =>
      cases e with
      | file b => exact absurd hget (hfile b)
      | dir =>
        rw [LocalFileStorageAdapter.walk_of_ok (hread.trans (FileSystem.readdir_ok hget))]
        refine h.finds_dir hget fun entry hin => ?_
        obtain ⟨e, he, hkind⟩ := FileSystem.mem_children.mp hin
        rw [join_name (append_base_ne_nil a q), join_name hq]
        cases e with
        | file b =>
          rw [if_neg (by rw [← hkind]; exact Bool.false_ne_true)]
          exact h.finds_file (q := entry.name :: q) he
        | dir =>
          -- an entry is nearer to the height of the tree than its directory
          have hsome : disk.get (entry.name :: (q ++ a.base)) ≠ none := by
            rw [he]
            exact Option.some_ne_none _
          have hlt := FileSystem.length_lt_height hsome
          rw [if_pos (by rw [← hkind]; rfl)]
          refine ih _ ?_ (List.cons_ne_nil entry.name q) false false (fun b hb => ?_) rfl
          · rw [← hn, List.cons_append, List.length_cons]
            omega
          · have hb' : disk.get (entry.name :: (q ++ a.base)) = some (.file b) := hb
            rw [he] at hb'
            cases hb'

theorem list_eq (d : Directory) : a.list d.text disk =
    (.ok (a.walk disk (written true (d.path ++ a.base) true) (written false d.path true)), disk) := by
  have htrailing : hasTrailingSeparator d.text.toList = d.slash := by
    rw [Directory.text, String.toList_ofList]
    exact hasTrailingSeparator_append d.path_ne_nil []
  have hslashed : (if hasTrailingSeparator d.text.toList then d.text else d.text ++ "/") = d.slashed := by
    rw [htrailing, Directory.text, Directory.slashed]
    cases d.slash with
    | true => rfl
    | false =>
      rw [written_true, String.ofList_append]
      rfl
  rw [LocalFileStorageAdapter.list, Effect.read_bind, hslashed, Directory.slashed,
    resolvePath_written d.path_ne_nil, String.toList_ofList]
  rfl

/-- The live keys under a directory. -/
theorem mem_list_slashed (h : Represents a disk s) (d : Directory) :
    key ∈ s.list d.slashed ↔ ∃ k : StorageKey, s.download k.text ≠ none ∧ (d.path <:+ k.path ∧ d.path ≠ k.path) ∧
      key = k.text := by
  have hunder : ∀ k : StorageKey, d.slashed.toList <+: k.text.toList ↔ d.path <:+ k.path ∧ d.path ≠ k.path := by
    intro k
    rw [Directory.slashed, k.text_eq, keyText, String.toList_ofList, String.toList_ofList]
    exact written_isPrefix_iff (List.cons_ne_nil _ _) d.path_ne_nil
  rw [Storage.mem_list]
  constructor
  · rintro ⟨hlive, hprefix⟩
    obtain ⟨k, rfl⟩ := h.keys key hlive
    exact ⟨k, hlive, (hunder k).mp hprefix, rfl⟩
  · rintro ⟨k, hlive, hpath, rfl⟩
    exact ⟨hlive, (hunder k).mpr hpath⟩

/-- **What is listed are the live keys under the directory, each once.** -/
theorem list_perm (h : Represents a disk s) (d : Directory) :
    (a.walk disk (written true (d.path ++ a.base) true) (written false d.path true)).Perm (s.list d.slashed) := by
  have hnodup : (s.list d.slashed).Nodup := s.keys_nodup.filter _
  by_cases hfile : ∃ b, disk.get (d.path ++ a.base) = some (.file b)
  · -- a key as a directory: it cannot be read, and nothing is under it
    obtain ⟨b, hb⟩ := hfile
    have hnot : disk.get (d.path ++ a.base) ≠ some .dir := by
      rw [hb]
      exact nofun
    obtain ⟨e, herror⟩ := FileSystem.readdir_refused (o := a.order) hnot
    have hread : readdir a.order disk (written true (d.path ++ a.base) true) = .error e :=
      (readdir_written (append_base_ne_nil a d.path) a.order disk).trans herror
    have hempty : s.list d.slashed = [] := by
      refine List.eq_nil_iff_forall_not_mem.mpr fun key hkey => ?_
      obtain ⟨k, hlive, hpath, -⟩ := (mem_list_slashed h d).mp hkey
      exact h.holds.not_leads d.path_ne_nil ((h.holds.file d.path b).mp hb) ⟨k.path, by rwa [stored_key], hpath⟩
    rw [LocalFileStorageAdapter.walk_of_error hread, hempty]
  · obtain ⟨hwalk, hmem⟩ := walk_finds h d.path_ne_nil true true (not_exists.mp hfile)
    refine (List.perm_ext_iff_of_nodup hwalk hnodup).mpr fun key => ?_
    rw [hmem, mem_list_slashed h]
    constructor
    · rintro ⟨k, hlive, hsuffix, rfl⟩
      refine ⟨k, hlive, ⟨hsuffix, fun heq => hfile ?_⟩, rfl⟩
      obtain ⟨b, hb⟩ := Option.ne_none_iff_exists'.mp hlive
      exact ⟨b, (h.holds.file d.path b).mpr (by rw [heq, stored_key, hb])⟩
    · rintro ⟨k, hlive, ⟨hsuffix, -⟩, rfl⟩
      exact ⟨k, hlive, hsuffix, rfl⟩

theorem list_ok (h : Represents a disk s) (d : Directory) :
    ∃ keys, a.list d.text disk = (.ok keys, disk) ∧ keys.Perm (s.list d.slashed) :=
  ⟨_, list_eq d, list_perm h d⟩

end Listing

/-! ## Runs -/

/-- A call of the port. -/
inductive Operation where
  | upload (k : StorageKey) (buffer : Bytes) (mimeType : String)
  | delete (k : StorageKey)
  | download (k : StorageKey)
  | «exists» (k : StorageKey)
  | list (d : Directory)

/-- What it returns. -/
inductive Answer where
  | done
  | buffer (b : Bytes)
  | found (b : Bool)
  | keys (keys : List String)

namespace Operation

/-- The operation of the adapter. -/
def perform (a : LocalFileStorageAdapter) : Operation → Fs Answer
  | upload k buffer mimeType => do
    a.upload k.text buffer mimeType
    return .done
  | delete k => do
    a.delete k.text
    return .done
  | download k => return .buffer (← a.download k.text)
  | «exists» k => return .found (← a.exists k.text)
  | list d => return .keys (← a.list d.text)

/-- What becomes of the map. -/
def apply (s : Storage) : Operation → Storage
  | upload k buffer _ => s.upload k.text buffer
  | delete k => s.delete k.text
  | download _ | «exists» _ | list _ => s

/-- The answer is that of the map; a download of a key that is not live throws. -/
def Answered (s : Storage) : Operation → Except Errno Answer → Prop
  | upload _ _ _, r | delete _, r => r = .ok .done
  | download k, r =>
    match s.download k.text with
    | some b => r = .ok (.buffer b)
    | none => ∃ e, r = .error e
  | «exists» k, r => r = .ok (.found (s.download k.text).isSome)
  | list d, r => ∃ keys, r = .ok (.keys keys) ∧ keys.Perm (s.list d.slashed)

section
variable {a : LocalFileStorageAdapter} {disk disk' : Disk} {s : Storage}

/-- **One operation.** -/
theorem perform_answered (h : Represents a disk s) (op : Operation) :
    op.Answered s (op.perform a disk).1 ∧ Represents a (op.perform a disk).2 (op.apply s) ∧
      SameOutside a.base disk (op.perform a disk).2 := by
  cases op with
  | upload k buffer mimeType =>
    obtain ⟨disk', hok, hrepresents, hsame⟩ := upload_ok h k buffer mimeType
    rw [perform, Effect.bind_of_ok hok]
    exact ⟨rfl, hrepresents, hsame⟩
  | delete k =>
    obtain ⟨disk', hok, hrepresents, hsame⟩ := delete_ok h k
    rw [perform, Effect.bind_of_ok hok]
    exact ⟨rfl, hrepresents, hsame⟩
  | download k =>
    rcases download_cases h k with ⟨b, hvalue, hok⟩ | ⟨hvalue, e, herror⟩
    · rw [perform, Effect.bind_of_ok hok]
      refine ⟨?_, h, .refl⟩
      rw [Answered, hvalue]
      rfl
    · rw [perform, Effect.bind_of_error herror]
      refine ⟨?_, h, .refl⟩
      rw [Answered, hvalue]
      exact ⟨e, rfl⟩
  | «exists» k =>
    rw [perform, Effect.bind_of_ok (exists_eq h k)]
    exact ⟨rfl, h, .refl⟩
  | list d =>
    obtain ⟨keys, hok, hperm⟩ := list_ok h d
    rw [perform, Effect.bind_of_ok hok]
    exact ⟨⟨keys, rfl, hperm⟩, h, .refl⟩

end

end Operation

/-- The operations one after the other, each with what it returns or throws. -/
def run (a : LocalFileStorageAdapter) : List Operation → Disk → List (Except Errno Answer) × Disk
  | [], disk => ([], disk)
  | op :: ops, disk =>
    let (r, disk') := op.perform a disk
    let (rs, disk'') := run a ops disk'
    (r :: rs, disk'')

/-- Every answer is that of the map at its time. -/
def AllAnswered : List Operation → Storage → List (Except Errno Answer) → Prop
  | op :: ops, s, r :: rs => op.Answered s r ∧ AllAnswered ops (op.apply s) rs
  | [], _, [] => True
  | _, _, _ => False

/-- Nothing is in the storage directory, and no file on its way. -/
structure Fresh (a : LocalFileStorageAdapter) (disk : Disk) : Prop where
  way : disk.Passable a.base
  empty : ∀ p, p ≠ [] → disk.get (p ++ a.base) = none

section Runs
variable {a : LocalFileStorageAdapter} {disk : Disk} {s : Storage}

theorem stored_empty (p : List Name) : stored ∅ p = none := by
  show (∅ : Storage).lookup (keyText p) = none
  exact AList.lookup_empty (keyText p)

/-- The constructor makes the storage directory. -/
theorem Fresh.represents (h : Fresh a disk) : Represents a (a.constructed disk).2 ∅ := by
  obtain ⟨disk', hmake, hget⟩ := FileSystem.makeDirs_ok h.way
  have hdisk : (a.constructed disk).2 = disk' := by
    rw [LocalFileStorageAdapter.constructed, Effect.attempt_bind, LocalFileStorageAdapter.basePath,
      mkdir_written a.base_ne_nil, Effect.change_of_ok hmake]
    rfl
  have hbelow : ∀ q, q ≠ [] → disk'.get (q ++ a.base) = none := by
    intro q hq
    have hnot : ¬ q ++ a.base <:+ [] ++ a.base := fun hs =>
      hq (List.suffix_nil.mp (append_suffix_append_iff.mp hs))
    rw [List.nil_append] at hnot
    rw [hget, if_neg hnot]
    exact h.empty q hq
  rw [hdisk]
  refine ⟨⟨?_, fun q b => ?_, fun q hq => ?_⟩, fun key hkey => absurd (AList.lookup_empty key) hkey⟩
  · rw [hget, if_pos List.suffix_rfl]
  · rw [stored_empty]
    refine iff_of_false (fun hfile => ?_) nofun
    by_cases hq : q = []
    · rw [hq, List.nil_append, hget, if_pos List.suffix_rfl] at hfile
      cases hfile
    · rw [hbelow q hq] at hfile
      cases hfile
  · rw [hbelow q hq]
    refine iff_of_false nofun ?_
    rintro (⟨p, hp, -⟩ | hnil)
    · exact hp (stored_empty p)
    · exact hq (List.suffix_nil.mp hnil)

/-- **The run of the operations** from any disk that holds a map. -/
theorem run_answered (h : Represents a disk s) (ops : List Operation) :
    AllAnswered ops s (run a ops disk).1 ∧ Represents a (run a ops disk).2 (ops.foldl Operation.apply s) ∧
      SameOutside a.base disk (run a ops disk).2 := by
  induction ops generalizing disk s with
  | nil => exact ⟨trivial, h, .refl⟩
  | cons op ops ih =>
    obtain ⟨hanswer, hrepresents, hsame⟩ := Operation.perform_answered h op
    obtain ⟨hanswers, hrepresents', hsame'⟩ := ih hrepresents
    exact ⟨⟨hanswer, hanswers⟩, hrepresents', hsame.trans hsame'⟩

end Runs

/-- **The adapter is a map from keys to binaries.** In every run each answer is that of the map, and the disk
holds the map in the end: its binaries, each in the file of its key, no directory that leads to none, and the
storage directory itself. Nothing outside of it is touched. -/
theorem run_implements_map (a : LocalFileStorageAdapter) (disk : Disk) (h : Fresh a disk) (ops : List Operation) :
    AllAnswered ops ∅ (run a ops (a.constructed disk).2).1 ∧
      Represents a (run a ops (a.constructed disk).2).2 (ops.foldl Operation.apply ∅) ∧
      SameOutside a.base (a.constructed disk).2 (run a ops (a.constructed disk).2).2 :=
  run_answered h.represents ops

theorem fresh_empty (a : LocalFileStorageAdapter) : Fresh a FileSystem.empty := by
  have hnone : ∀ p, p ≠ [] → (FileSystem.empty : Disk).get p = none := by
    intro p hp
    obtain ⟨name, p, rfl⟩ := List.exists_cons_of_ne_nil hp
    show (FileSystem.empty : Disk).nodes.lookup (name :: p) = none
    exact AList.lookup_empty (name :: p)
  refine ⟨fun q b _ hfile => ?_, fun p _ => hnone _ (append_base_ne_nil a p)⟩
  by_cases hq : q = []
  · rw [hq, FileSystem.get_nil] at hfile
    cases hfile
  · rw [hnone q hq] at hfile
    cases hfile

/-- At the root, with directories read in the order of their entries. -/
def rootAdapter : LocalFileStorageAdapter := ⟨[], ⟨id, fun _ => .rfl⟩⟩

/-- A key. -/
def someKey : StorageKey := ⟨tmpName, filesName, 1, storageName⟩

/-- A file that is written, read and deleted. -/
def someOperations : List Operation :=
  [.upload someKey [1, 2] "image/png", .list ⟨[tenantsName], List.cons_ne_nil _ _, false⟩, .delete someKey,
    .download someKey, .list ⟨[tenantsName], List.cons_ne_nil _ _, true⟩]

theorem run_implements_map_some :
    AllAnswered someOperations ∅ (run rootAdapter someOperations (rootAdapter.constructed FileSystem.empty).2).1 :=
  (run_implements_map rootAdapter FileSystem.empty (fresh_empty rootAdapter) someOperations).1

end Neltrik.FileStorage.LocalFileStorage
