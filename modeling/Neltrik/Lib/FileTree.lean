import Mathlib.Data.List.AList
import Mathlib.Data.List.Infix
import Mathlib.Data.Nat.Notation
import Mathlib.Logic.Function.Basic

/-! # A tree of files

A path lists its segments from the last one up, so that the directory a path is in is its tail. The system
keeps an entry for every path but the root, and the entry above an entry is a directory (`closed`), so a path
that has an entry has directories on its way. Links and permissions are left out.

Each operation has a lemma that says what it does where it is not refused, by `get` alone (`makeDirs_ok`,
`writeFile_ok`, `rm_ok`, `rmdir_ok`) and, as far as it is needed, one that says when it is refused.
-/

namespace Neltrik.Lib.FileTree

/-- A file or a directory. -/
inductive Entry (B : Type*) where
  | dir
  | file (content : B)
  deriving DecidableEq

/-- It is a directory. -/
def Entry.isDirectory {B : Type*} : Entry B → Bool
  | dir => true
  | file _ => false

/-- Why a call fails. -/
inductive Errno where
  | noEntry
  | notDirectory
  | isDirectory
  | exists
  | notEmpty
  | busy
  | invalidArgument
  deriving DecidableEq

/-- What a directory is read as. -/
@[ext]
structure Dirent (S : Type*) where
  name : S
  isDirectory : Bool
  deriving DecidableEq

/-- There is no entry that is neither. -/
def Dirent.isFile {S : Type*} (d : Dirent S) : Bool := !d.isDirectory

/-- The order in which a directory is read. -/
structure ReadOrder (S : Type*) where
  arrange : List (Dirent S) → List (Dirent S)
  perm : ∀ ds, (arrange ds).Perm ds

/-! ## Paths -/

section Paths
variable {S B : Type*} {base q : List S} {m : List S → Option B} {name : S}

theorem cons_not_suffix (name : S) (p : List S) : ¬ name :: p <:+ p := by
  intro h
  have hlength := h.length_le
  rw [List.length_cons] at hlength
  omega

theorem append_key_inj {w : List S} (base : List S) : q ++ base = name :: (w ++ base) ↔ q = name :: w := by
  rw [← List.cons_append, List.append_left_inj]

theorem append_suffix_append_iff {a c : List S} : a ++ base <:+ c ++ base ↔ a <:+ c := by
  constructor
  · rintro ⟨t, ht⟩
    rw [← List.append_assoc] at ht
    exact ⟨t, List.append_cancel_right ht⟩
  · rintro ⟨t, rfl⟩
    exact ⟨t, (List.append_assoc t a base).symm⟩

/-- What is on the way to `c ++ base` is on the way to `base` or under it. -/
theorem suffix_append_cases {c : List S} (h : q <:+ c ++ base) : q <:+ base ∨ ∃ a, q = a ++ base ∧ a <:+ c := by
  rcases List.suffix_or_suffix_of_suffix h (List.suffix_append c base) with hq | ⟨a, rfl⟩
  · exact .inl hq
  · exact .inr ⟨a, rfl, append_suffix_append_iff.mp h⟩

/-- A key with a value is under the directory. -/
def Leads (m : List S → Option B) (q : List S) : Prop := ∃ p, m p ≠ none ∧ q <:+ p ∧ q ≠ p

theorem Leads.suffix {q' : List S} (h : Leads m q) (hq : q' <:+ q) : Leads m q' := by
  obtain ⟨p, hp, hqp, hne⟩ := h
  refine ⟨p, hp, hq.trans hqp, ?_⟩
  rintro rfl
  exact hne (hqp.eq_of_length_le hq.length_le)

/-- A directory that leads to a value leads there through one of its entries. -/
theorem Leads.child (h : Leads m q) : ∃ name, m (name :: q) ≠ none ∨ Leads m (name :: q) := by
  obtain ⟨p, hp, ⟨t, rfl⟩, hne⟩ := h
  rcases List.eq_nil_or_concat t with rfl | ⟨t, name, rfl⟩
  · exact absurd rfl hne
  · refine ⟨name, ?_⟩
    rw [List.concat_eq_append, List.append_assoc] at hp
    cases t with
    | nil => exact .inl hp
    | cons name' t =>
      refine .inr ⟨_, hp, List.suffix_append _ _, fun heq => ?_⟩
      have hlength := congrArg List.length heq
      simp only [List.length_append, List.length_cons] at hlength
      omega

/-- A value makes directories of what is on its way. -/
theorem leads_of_way {w : List S} (h : m (name :: w) ≠ none) (hq : q <:+ w) : Leads m q := by
  refine ⟨name :: w, h, hq.trans (List.suffix_cons name w), ?_⟩
  rintro rfl
  exact cons_not_suffix name w hq

/-- Maps that differ at one key only lead to the same values, but for the way to the key. -/
theorem Leads.of_eq_off {m' : List S → Option B} {w : List S} (hoff : ∀ r, r ≠ name :: w → m' r = m r)
    (hq : q ≠ name :: w) (h : Leads m q) : Leads m' q ∨ q <:+ w := by
  obtain ⟨r, hr, hqr, hne⟩ := h
  by_cases hkey : r = name :: w
  · rw [hkey] at hqr
    exact .inr ((List.suffix_cons_iff.mp hqr).resolve_left hq)
  · refine .inl ⟨r, ?_, hqr, hne⟩
    rwa [hoff r hkey]

section Update
variable [DecidableEq S] {w : List S}

theorem leads_update_or_iff (hq : q ≠ name :: w) (o : Option B) :
    Leads (Function.update m (name :: w) o) q ∨ q <:+ w ↔ Leads m q ∨ q <:+ w := by
  have hoff : ∀ r, r ≠ name :: w → Function.update m (name :: w) o r = m r :=
    fun r hr => Function.update_of_ne hr o m
  constructor
  · rintro (h | hw)
    · exact h.of_eq_off (fun r hr => (hoff r hr).symm) hq
    · exact .inr hw
  · rintro (h | hw)
    · exact h.of_eq_off hoff hq
    · exact .inr hw

/-- A key does not lead to its own value. -/
theorem leads_update_self_iff (o : Option B) : Leads (Function.update m q o) q ↔ Leads m q := by
  have hoff : ∀ r, q ≠ r → Function.update m q o r = m r := fun r hr => Function.update_of_ne hr.symm o m
  constructor
  · rintro ⟨r, hr, hqr, hne⟩
    rw [hoff r hne] at hr
    exact ⟨r, hr, hqr, hne⟩
  · rintro ⟨r, hr, hqr, hne⟩
    rw [← hoff r hne] at hr
    exact ⟨r, hr, hqr, hne⟩

end Update

end Paths

/-! ## File systems -/

variable {S B : Type*} [DecidableEq S]

/-- The root is always there. -/
def entryOf (nodes : AList fun _ : List S => Entry B) : List S → Option (Entry B)
  | [] => some .dir
  | name :: p => nodes.lookup (name :: p)

/-- The entries, each in a directory. -/
structure FileSystem (S B : Type*) [DecidableEq S] where
  nodes : AList fun _ : List S => Entry B
  closed : ∀ name p, nodes.lookup (name :: p) ≠ none → entryOf nodes p = some .dir

namespace FileSystem

/-- What is at a path. -/
def get (fs : FileSystem S B) (p : List S) : Option (Entry B) := entryOf fs.nodes p

/-- There is only the root. -/
def empty : FileSystem S B where
  nodes := ∅
  closed _ _ h := absurd (AList.lookup_empty _) h

/-! ## Changes -/

theorem entryOf_insert (nodes : AList fun _ : List S => Entry B) (name : S) (p q : List S) (e : Entry B) :
    entryOf (nodes.insert (name :: p) e) q = if q = name :: p then some e else entryOf nodes q := by
  cases q with
  | nil => rfl
  | cons name' q =>
    by_cases hq : name' :: q = name :: p
    · rw [if_pos hq, hq]
      exact AList.lookup_insert _
    · rw [if_neg hq]
      exact AList.lookup_insert_ne hq

theorem entryOf_erase (nodes : AList fun _ : List S => Entry B) (name : S) (p q : List S) :
    entryOf (nodes.erase (name :: p)) q = if q = name :: p then none else entryOf nodes q := by
  cases q with
  | nil => rfl
  | cons name' q =>
    by_cases hq : name' :: q = name :: p
    · rw [if_pos hq, hq]
      exact AList.lookup_erase _ _
    · rw [if_neg hq]
      exact AList.lookup_erase_ne hq

/-- A new entry in a directory; only a directory is put in the place of a directory. -/
def put (fs : FileSystem S B) (name : S) (p : List S) (e : Entry B) (hp : fs.get p = some .dir)
    (hplace : fs.get (name :: p) = some .dir → e = .dir) : FileSystem S B where
  nodes := fs.nodes.insert (name :: p) e
  closed name' q hq := by
    have hnew : entryOf (fs.nodes.insert (name :: p) e) (name' :: q) ≠ none := hq
    rw [entryOf_insert] at hnew ⊢
    by_cases hsame : name' :: q = name :: p
    · obtain ⟨-, rfl⟩ := List.cons.inj hsame
      rw [if_neg (List.cons_ne_self name q).symm]
      exact hp
    · rw [if_neg hsame] at hnew
      have hdir : fs.get q = some .dir := fs.closed name' q hnew
      by_cases hq' : q = name :: p
      · rw [if_pos hq', hplace (hq' ▸ hdir)]
      · rw [if_neg hq']
        exact hdir

/-- An entry is taken out under which there is none. -/
def remove (fs : FileSystem S B) (name : S) (p : List S) (hbelow : ∀ below, fs.get (below :: name :: p) = none) :
    FileSystem S B where
  nodes := fs.nodes.erase (name :: p)
  closed name' q hq := by
    have hold : entryOf (fs.nodes.erase (name :: p)) (name' :: q) ≠ none := hq
    rw [entryOf_erase] at hold ⊢
    by_cases hsame : name' :: q = name :: p
    · rw [if_pos hsame] at hold
      exact absurd rfl hold
    · rw [if_neg hsame] at hold
      by_cases hq' : q = name :: p
      · rw [hq'] at hold
        exact absurd (hbelow name') hold
      · rw [if_neg hq']
        exact fs.closed name' q hold

theorem get_put {fs : FileSystem S B} {name : S} {p : List S} {e : Entry B} (hp : fs.get p = some .dir)
    (hplace : fs.get (name :: p) = some .dir → e = .dir) (q : List S) :
    (fs.put name p e hp hplace).get q = if q = name :: p then some e else fs.get q :=
  entryOf_insert fs.nodes name p q e

theorem get_remove {fs : FileSystem S B} {name : S} {p : List S}
    (hbelow : ∀ below, fs.get (below :: name :: p) = none) (q : List S) :
    (fs.remove name p hbelow).get q = if q = name :: p then none else fs.get q :=
  entryOf_erase fs.nodes name p q

/-! ## Entries -/

section Entries
variable {fs : FileSystem S B} {name : S} {p q : List S} {e : Entry B}

@[simp] theorem get_nil : fs.get [] = some .dir := rfl

/-- An entry is in a directory. -/
theorem get_parent (h : fs.get (name :: p) = some e) : fs.get p = some .dir := by
  refine fs.closed name p ?_
  have hlookup : fs.nodes.lookup (name :: p) = some e := h
  rw [hlookup]
  exact Option.some_ne_none e

/-- On the way to an entry there are directories. -/
theorem get_above (h : fs.get p = some e) (hq : q <:+ p) (hne : q ≠ p) : fs.get q = some .dir := by
  induction p generalizing e with
  | nil => exact absurd (List.suffix_nil.mp hq) hne
  | cons name p ih =>
    have hp := get_parent h
    rcases List.suffix_cons_iff.mp hq with heq | hq
    · exact absurd heq hne
    · by_cases hsame : q = p
      · rw [hsame]
        exact hp
      · exact ih hp hq hsame

/-- Under a file there is nothing. -/
theorem get_below_file {b : B} (h : fs.get p = some (.file b)) : fs.get (name :: p) = none := by
  cases hbelow : fs.get (name :: p) with
  | none => rfl
  | some e =>
    have hdir := get_parent hbelow
    rw [h] at hdir
    cases hdir

end Entries

/-- Why there is no entry. -/
def missing (fs : FileSystem S B) (p : List S) : Errno :=
  if p.tails.any fun q => (fs.get q).any (!·.isDirectory) then .notDirectory else .noEntry

/-- The node as one of the directory `p`. -/
def direntIn (p : List S) (node : Sigma fun _ : List S => Entry B) : Option (Dirent S) :=
  match node.1 with
  | [] => none
  | name :: q => if q = p then some ⟨name, node.2.isDirectory⟩ else none

/-- What stands in the directory. -/
def children (fs : FileSystem S B) (p : List S) : List (Dirent S) := fs.nodes.entries.filterMap (direntIn p)

theorem direntIn_eq_some_iff {p q : List S} {e : Entry B} {d : Dirent S} :
    direntIn p ⟨q, e⟩ = some d ↔ q = d.name :: p ∧ e.isDirectory = d.isDirectory := by
  cases q with
  | nil => exact ⟨nofun, fun h => nomatch h.1⟩
  | cons name q =>
    show (if q = p then some (Dirent.mk name e.isDirectory) else none) = some d ↔ _
    by_cases hq : q = p
    · rw [if_pos hq, hq, Option.some_inj, List.cons.injEq, Dirent.ext_iff]
      exact ⟨fun h => ⟨⟨h.1, rfl⟩, h.2⟩, fun h => ⟨h.1.1, h.2⟩⟩
    · rw [if_neg hq, List.cons.injEq]
      exact ⟨nofun, fun h => absurd h.1.2 hq⟩

/-- No entry is deeper. -/
def height (fs : FileSystem S B) : ℕ := (fs.nodes.keys.map List.length).foldr max 0

theorem length_lt_height {fs : FileSystem S B} {name : S} {p : List S} (h : fs.get (name :: p) ≠ none) :
    p.length < fs.height := by
  have hgo : ∀ ps : List (List S), ∀ q ∈ ps, q.length ≤ (ps.map List.length).foldr max 0 := by
    intro ps
    induction ps with
    | nil => exact nofun
    | cons q' ps ih =>
      intro q hq
      rcases List.mem_cons.mp hq with rfl | hq
      · exact Nat.le_max_left _ _
      · exact Nat.le_trans (ih q hq) (Nat.le_max_right _ _)
  obtain ⟨e, he⟩ := Option.ne_none_iff_exists'.mp h
  have hlookup : fs.nodes.lookup (name :: p) = some e := he
  have hmem : name :: p ∈ fs.nodes.keys := AList.lookup_isSome.mp (Option.isSome_of_eq_some hlookup)
  exact hgo _ _ hmem

/-! ## The operations -/

/-- Of a path that is free, in a directory. -/
def mkdir (fs : FileSystem S B) : List S → Except Errno (FileSystem S B)
  | [] => .error .exists
  | name :: p =>
    match hp : fs.get p, fs.get (name :: p) with
    | none, _ => .error (fs.missing p)
    | some (.file _), _ => .error .notDirectory
    | some .dir, some _ => .error .exists
    | some .dir, none => .ok (fs.put name p .dir hp fun _ => rfl)

/-- `mkdir` with the directories on the way. -/
def makeDirs (fs : FileSystem S B) : List S → Except Errno (FileSystem S B)
  | [] => .ok fs
  | name :: p =>
    match fs.makeDirs p with
    | .error e => .error e
    | .ok fs' =>
      match fs'.get (name :: p) with
      | some .dir => .ok fs'
      | _ => fs'.mkdir (name :: p)

/-- The file is made or written over. -/
def writeFile (fs : FileSystem S B) (content : B) : List S → Except Errno (FileSystem S B)
  | [] => .error .isDirectory
  | name :: p =>
    match hp : fs.get p, hplace : fs.get (name :: p) with
    | none, _ => .error (fs.missing p)
    | some (.file _), _ => .error .notDirectory
    | some .dir, some .dir => .error .isDirectory
    | some .dir, some (.file _) => .ok (fs.put name p (.file content) hp fun h => by rw [hplace] at h; cases h)
    | some .dir, none => .ok (fs.put name p (.file content) hp fun h => by rw [hplace] at h; cases h)

/-- The bytes of a file. -/
def readFile (fs : FileSystem S B) (p : List S) : Except Errno B :=
  match fs.get p with
  | none => .error (fs.missing p)
  | some .dir => .error .isDirectory
  | some (.file content) => .ok content

/-- Whether there is an entry. -/
def access (fs : FileSystem S B) (p : List S) : Except Errno Unit :=
  match fs.get p with
  | none => .error (fs.missing p)
  | some _ => .ok ()

/-- `rm` with `force`, which takes what is not there for removed. -/
def rm (fs : FileSystem S B) : List S → Except Errno (FileSystem S B)
  | [] => .error .isDirectory
  | name :: p =>
    match h : fs.get (name :: p) with
    | none => if fs.missing (name :: p) = .noEntry then .ok fs else .error (fs.missing (name :: p))
    | some .dir => .error .isDirectory
    | some (.file _) => .ok (fs.remove name p fun _ => get_below_file h)

theorem mem_children {fs : FileSystem S B} {p : List S} {d : Dirent S} :
    d ∈ fs.children p ↔ ∃ e, fs.get (d.name :: p) = some e ∧ e.isDirectory = d.isDirectory := by
  rw [children, List.mem_filterMap]
  constructor
  · rintro ⟨⟨q, e⟩, hmem, hd⟩
    obtain ⟨rfl, he⟩ := direntIn_eq_some_iff.mp hd
    exact ⟨e, AList.mem_lookup_iff.mpr hmem, he⟩
  · rintro ⟨e, hget, he⟩
    exact ⟨⟨d.name :: p, e⟩, AList.mem_lookup_iff.mp hget, direntIn_eq_some_iff.mpr ⟨rfl, he⟩⟩

/-- No two of them have the same name. -/
theorem children_pairwise (fs : FileSystem S B) (p : List S) :
    (fs.children p).Pairwise fun d d' => d.name ≠ d'.name := by
  refine List.Pairwise.filterMap _ ?_ (List.nodupKeys_iff_pairwise.mp fs.nodes.nodupKeys)
  rintro ⟨q, e⟩ ⟨q', e'⟩ hne d hd d' hd' hname
  obtain ⟨hq, -⟩ := direntIn_eq_some_iff.mp hd
  obtain ⟨hq', -⟩ := direntIn_eq_some_iff.mp hd'
  exact hne (by rw [hq, hq', hname])

/-- Nothing stands in it. -/
theorem get_below_of_children {fs : FileSystem S B} {p : List S} (h : fs.children p = []) (name : S) :
    fs.get (name :: p) = none := by
  cases hbelow : fs.get (name :: p) with
  | none => rfl
  | some e =>
    have hmem : Dirent.mk name e.isDirectory ∈ fs.children p := mem_children.mpr ⟨e, hbelow, rfl⟩
    rw [h] at hmem
    exact absurd hmem List.not_mem_nil

/-- Of an empty directory. -/
def rmdir (fs : FileSystem S B) : List S → Except Errno (FileSystem S B)
  | [] => .error .busy
  | name :: p =>
    match fs.get (name :: p) with
    | none => .error (fs.missing (name :: p))
    | some (.file _) => .error .notDirectory
    | some .dir =>
      match h : fs.children (name :: p) with
      | [] => .ok (fs.remove name p (get_below_of_children h))
      | _ :: _ => .error .notEmpty

/-- The entries of a directory. -/
def readdir (order : ReadOrder S) (fs : FileSystem S B) (p : List S) : Except Errno (List (Dirent S)) :=
  match fs.get p with
  | none => .error (fs.missing p)
  | some (.file _) => .error .notDirectory
  | some .dir => .ok (order.arrange (fs.children p))

/-! ## What they do -/

section Specs
variable {fs : FileSystem S B} {name : S} {p : List S}

/-- No file is on the way. -/
def Passable (fs : FileSystem S B) (p : List S) : Prop := ∀ q b, q <:+ p → fs.get q ≠ some (.file b)

theorem missing_eq_noEntry (h : fs.Passable p) : fs.missing p = .noEntry := by
  refine if_neg fun hany => ?_
  obtain ⟨q, hq, hfile⟩ := List.any_eq_true.mp hany
  cases hget : fs.get q with
  | none =>
    rw [hget] at hfile
    cases hfile
  | some e =>
    rw [hget] at hfile
    cases e with
    | dir => cases hfile
    | file b => exact h q b ((List.mem_tails _ _).mp hq) hget

theorem mkdir_ok (hp : fs.get p = some .dir) (hplace : fs.get (name :: p) = none) :
    ∃ fs', fs.mkdir (name :: p) = .ok fs' ∧ ∀ q, fs'.get q = if q = name :: p then some .dir else fs.get q := by
  refine ⟨fs.put name p .dir hp fun _ => rfl, ?_, get_put hp _⟩
  rw [mkdir]
  split
  · next h => exact absurd (hp.symm.trans h) nofun
  · next h => exact absurd (hp.symm.trans h) nofun
  · next h => exact absurd (hplace.symm.trans h) nofun
  · rfl

theorem makeDirs_cons {fs' : FileSystem S B} (h : fs.makeDirs p = .ok fs') : fs.makeDirs (name :: p) =
    match fs'.get (name :: p) with
    | some .dir => .ok fs'
    | _ => fs'.mkdir (name :: p) := by
  rw [makeDirs, h]

/-- **The directories on the way are there, and else nothing has changed.** -/
theorem makeDirs_ok (h : fs.Passable p) :
    ∃ fs', fs.makeDirs p = .ok fs' ∧ ∀ q, fs'.get q = if q <:+ p then some .dir else fs.get q := by
  induction p with
  | nil =>
    refine ⟨fs, rfl, fun q => ?_⟩
    by_cases hq : q <:+ []
    · rw [if_pos hq, List.suffix_nil.mp hq]
      rfl
    · rw [if_neg hq]
  | cons name p ih =>
    obtain ⟨fs', hmake, hget⟩ := ih fun q b hq => h q b (hq.trans (List.suffix_cons name p))
    have hnot : ¬ name :: p <:+ p := cons_not_suffix name p
    have hplace : fs'.get (name :: p) = fs.get (name :: p) := by rw [hget, if_neg hnot]
    have hp : fs'.get p = some .dir := by rw [hget, if_pos List.suffix_rfl]
    rw [makeDirs_cons hmake, hplace]
    cases hold : fs.get (name :: p) with
    | none =>
      obtain ⟨fs'', hmkdir, hget'⟩ := mkdir_ok hp (hplace.trans hold)
      refine ⟨fs'', ?_, fun q => ?_⟩
      · exact hmkdir
      · rw [hget', hget]
        by_cases hq : q = name :: p
        · rw [hq, if_pos rfl, if_pos List.suffix_rfl]
        · rw [if_neg hq]
          exact if_congr (by rw [List.suffix_cons_iff, or_iff_right hq]) rfl rfl
    | some e =>
      cases e with
      | file b => exact absurd hold (h _ b List.suffix_rfl)
      | dir =>
        refine ⟨fs', rfl, fun q => ?_⟩
        rw [hget]
        by_cases hq : q = name :: p
        · rw [hq, if_neg hnot, if_pos List.suffix_rfl, hold]
        · exact if_congr (by rw [List.suffix_cons_iff, or_iff_right hq]) rfl rfl

theorem writeFile_ok {b : B} (hp : fs.get p = some .dir) (hplace : fs.get (name :: p) ≠ some .dir) :
    ∃ fs', fs.writeFile b (name :: p) = .ok fs' ∧
      ∀ q, fs'.get q = if q = name :: p then some (.file b) else fs.get q := by
  refine ⟨fs.put name p (.file b) hp (absurd · hplace), ?_, get_put hp _⟩
  rw [writeFile]
  split
  · next h => exact absurd (hp.symm.trans h) nofun
  · next h => exact absurd (hp.symm.trans h) nofun
  · next h => exact absurd h hplace
  · rfl
  · rfl

theorem readFile_eq_ok_iff {b : B} : fs.readFile p = .ok b ↔ fs.get p = some (.file b) := by
  unfold readFile
  cases fs.get p with
  | none => exact ⟨nofun, nofun⟩
  | some e =>
    cases e with
    | dir => exact ⟨nofun, nofun⟩
    | file b' =>
      constructor
      · intro h
        cases h
        rfl
      · intro h
        cases h
        rfl

theorem access_eq_ok_iff : fs.access p = .ok () ↔ fs.get p ≠ none := by
  unfold access
  cases fs.get p with
  | none => exact ⟨nofun, fun h => absurd rfl h⟩
  | some e => exact ⟨fun _ => Option.some_ne_none e, fun _ => rfl⟩

theorem rm_ok {b : B} (h : fs.get (name :: p) = some (.file b)) :
    ∃ fs', fs.rm (name :: p) = .ok fs' ∧ ∀ q, fs'.get q = if q = name :: p then none else fs.get q := by
  refine ⟨fs.remove name p fun _ => get_below_file h, ?_, get_remove _⟩
  rw [rm]
  split
  · next h' => exact absurd (h.symm.trans h') nofun
  · next h' => exact absurd (h.symm.trans h') nofun
  · rfl

theorem rm_missing (h : fs.get (name :: p) = none) (hway : fs.Passable (name :: p)) : fs.rm (name :: p) = .ok fs := by
  rw [rm]
  split
  · exact if_pos (missing_eq_noEntry hway)
  · next h' => exact absurd (h.symm.trans h') nofun
  · next h' => exact absurd (h.symm.trans h') nofun

theorem rmdir_ok (h : fs.get (name :: p) = some .dir) (hbelow : ∀ below, fs.get (below :: name :: p) = none) :
    ∃ fs', fs.rmdir (name :: p) = .ok fs' ∧ ∀ q, fs'.get q = if q = name :: p then none else fs.get q := by
  refine ⟨fs.remove name p hbelow, ?_, get_remove _⟩
  rw [rmdir, h]
  dsimp only
  split
  · rfl
  · next d ds hds =>
    have hmem : d ∈ fs.children (name :: p) := by
      rw [hds]
      exact List.mem_cons_self
    obtain ⟨e, he, -⟩ := mem_children.mp hmem
    exact absurd ((hbelow d.name).symm.trans he) nofun

/-- What is not a directory, or not an empty one, stays. -/
theorem rmdir_refused (h : fs.get p = some .dir → ∃ below, fs.get (below :: p) ≠ none) :
    ∃ e, fs.rmdir p = .error e := by
  cases p with
  | nil => exact ⟨_, rfl⟩
  | cons name p =>
    rw [rmdir]
    cases hget : fs.get (name :: p) with
    | none => exact ⟨_, rfl⟩
    | some e =>
      cases e with
      | file b => exact ⟨_, rfl⟩
      | dir =>
        obtain ⟨below, hbelow⟩ := h hget
        dsimp only
        split
        · next hnil => exact absurd (get_below_of_children hnil below) hbelow
        · exact ⟨_, rfl⟩

theorem readdir_ok {o : ReadOrder S} (h : fs.get p = some .dir) :
    readdir o fs p = .ok (o.arrange (fs.children p)) := by
  rw [readdir, h]

theorem readdir_refused {o : ReadOrder S} (h : fs.get p ≠ some .dir) : ∃ e, readdir o fs p = .error e := by
  rw [readdir]
  cases hget : fs.get p with
  | none => exact ⟨_, rfl⟩
  | some e =>
    cases e with
    | file b => exact ⟨_, rfl⟩
    | dir => exact absurd hget h

end Specs

end FileSystem

/-! ## Flat maps

The values of a map `m` from paths stand in files under `base`, and the directories there are those that lead
to a value, and those of the path `way`, which are about to be filled or to be removed. -/

open FileSystem

/-- Under `base` there are the files of `m`, their directories and those of `way`. -/
structure Holds (fs : FileSystem S B) (base : List S) (m : List S → Option B) (way : List S) : Prop where
  root : fs.get base = some .dir
  file : ∀ q b, fs.get (q ++ base) = some (.file b) ↔ m q = some b
  dir : ∀ q, q ≠ [] → (fs.get (q ++ base) = some .dir ↔ Leads m q ∨ q <:+ way)

/-- Only what is under `base` has changed. -/
def SameOutside (base : List S) (fs fs' : FileSystem S B) : Prop := ∀ q, ¬ base <:+ q → fs'.get q = fs.get q

section Flat
variable {fs fs' : FileSystem S B} {base q w : List S} {m : List S → Option B} {name : S} {b : B}

theorem SameOutside.refl : SameOutside base fs fs := fun _ _ => rfl

theorem SameOutside.trans {fs'' : FileSystem S B} (h : SameOutside base fs fs') (h' : SameOutside base fs' fs'') :
    SameOutside base fs fs'' := fun q hq => (h' q hq).trans (h q hq)

/-- What has changed at one entry is seen under the directory, and not outside of it. -/
theorem get_under {o : Option (Entry B)}
    (h : ∀ q, fs'.get q = if q = name :: (w ++ base) then o else fs.get q) (q : List S) :
    fs'.get (q ++ base) = if q = name :: w then o else fs.get (q ++ base) := by
  rw [h]
  exact if_congr (append_key_inj base) rfl rfl

theorem root_of_get {o : Option (Entry B)} (hroot : fs.get base = some .dir)
    (h : ∀ q, fs'.get q = if q = name :: (w ++ base) then o else fs.get q) : fs'.get base = some .dir := by
  have hget := get_under h []
  rw [if_neg (List.cons_ne_nil name w).symm] at hget
  exact hget.trans hroot

theorem sameOutside_of_get {o : Option (Entry B)}
    (h : ∀ q, fs'.get q = if q = name :: (w ++ base) then o else fs.get q) : SameOutside base fs fs' := by
  intro q hq
  rw [h]
  refine if_neg ?_
  rintro rfl
  exact hq (List.suffix_append (name :: w) base)

namespace Holds

/-- No value is above `q`, so that one may go there. -/
theorem passable (h : Holds fs base m w) (hq : ∀ r, r <:+ q → m r = none) : fs.Passable (q ++ base) := by
  intro r c hr hfile
  rcases suffix_append_cases hr with hr | ⟨a, rfl, ha⟩
  · have hdir : fs.get r = some .dir := by
      by_cases hne : r = base
      · rw [hne]
        exact h.root
      · exact get_above h.root hr hne
    rw [hdir] at hfile
    cases hfile
  · have hvalue := (h.file a c).mp hfile
    rw [hq a ha] at hvalue
    cases hvalue

/-- Where a directory stands there is no value. -/
theorem value_eq_none (h : Holds fs base m w) (hq : fs.get (q ++ base) = some .dir) : m q = none := by
  cases hvalue : m q with
  | none => rfl
  | some c =>
    have hfile := (h.file q c).mpr hvalue
    rw [hq] at hfile
    cases hfile

theorem not_leads (h : Holds fs base m w) (hq : q ≠ []) (hvalue : m q = some b) : ¬ Leads m q := by
  intro hleads
  have hdir := (h.dir q hq).mpr (.inl hleads)
  rw [(h.file q b).mpr hvalue] at hdir
  cases hdir

/-- A directory that leads to a value is not empty. -/
theorem exists_below (h : Holds fs base m w) (hq : Leads m q) : ∃ name, fs.get (name :: q ++ base) ≠ none := by
  obtain ⟨name, hvalue | hleads⟩ := hq.child
  · obtain ⟨c, hc⟩ := Option.ne_none_iff_exists'.mp hvalue
    refine ⟨name, ?_⟩
    rw [(h.file _ c).mpr hc]
    exact Option.some_ne_none _
  · refine ⟨name, ?_⟩
    rw [(h.dir _ (List.cons_ne_nil name q)).mpr (.inl hleads)]
    exact Option.some_ne_none _

/-- Where nothing is to be filled or removed, no directory is. -/
theorem rmdir_refused (h : Holds fs base m []) (hq : q ≠ []) : ∃ e, fs.rmdir (q ++ base) = .error e := by
  refine FileSystem.rmdir_refused fun hdir => ?_
  rcases (h.dir q hq).mp hdir with hleads | hway
  · exact h.exists_below hleads
  · exact absurd (List.suffix_nil.mp hway) hq

/-- The root of the map and the directories of the way. -/
theorem get_way (h : Holds fs base m w) (hq : q <:+ w) : fs.get (q ++ base) = some .dir := by
  by_cases hnil : q = []
  · rw [hnil]
    exact h.root
  · exact (h.dir q hnil).mpr (.inr hq)

/-- Directories are made on a way without a value. -/
theorem make_way (h : Holds fs base m []) (hway : ∀ q, q <:+ w → m q = none) :
    ∃ fs', fs.makeDirs (w ++ base) = .ok fs' ∧ Holds fs' base m w ∧ SameOutside base fs fs' := by
  obtain ⟨fs', hmake, hget⟩ := makeDirs_ok (h.passable hway)
  have hgetq : ∀ q, fs'.get (q ++ base) = if q <:+ w then some .dir else fs.get (q ++ base) := by
    intro q
    rw [hget]
    exact if_congr append_suffix_append_iff rfl rfl
  refine ⟨fs', hmake, ⟨?_, fun q c => ?_, fun q hq => ?_⟩, fun q hq => ?_⟩
  · have hroot := hgetq []
    rw [if_pos List.nil_suffix] at hroot
    exact hroot
  · rw [hgetq]
    by_cases hqw : q <:+ w
    · rw [if_pos hqw, hway q hqw]
      exact ⟨nofun, nofun⟩
    · rw [if_neg hqw]
      exact h.file q c
  · rw [hgetq]
    by_cases hqw : q <:+ w
    · rw [if_pos hqw]
      exact iff_of_true rfl (.inr hqw)
    · rw [if_neg hqw, h.dir q hq, or_iff_left hqw, or_iff_left (mt List.suffix_nil.mp hq)]
  · rw [hget]
    by_cases hqw : q <:+ w ++ base
    · rcases suffix_append_cases hqw with hqb | ⟨a, rfl, -⟩
      · rw [if_pos hqw]
        exact (get_above h.root hqb fun heq => hq (by rw [heq])).symm
      · exact absurd (List.suffix_append a base) hq
    · exact if_neg hqw

/-- A value is put at the end of the way. -/
theorem write_value (h : Holds fs base m w) (hbelow : ¬ Leads m (name :: w)) (b : B) :
    ∃ fs', fs.writeFile b (name :: w ++ base) = .ok fs' ∧
      Holds fs' base (Function.update m (name :: w) (some b)) [] ∧ SameOutside base fs fs' := by
  have hplace : fs.get (name :: w ++ base) ≠ some .dir := by
    intro hdir
    rcases (h.dir (name :: w) (List.cons_ne_nil name w)).mp hdir with hleads | hway
    · exact hbelow hleads
    · exact cons_not_suffix name w hway
  obtain ⟨fs', hwrite, hget⟩ := writeFile_ok (b := b) (h.get_way List.suffix_rfl) hplace
  have hgetq := get_under hget
  refine ⟨fs', hwrite, ⟨?_, fun q c => ?_, fun q hq => ?_⟩, sameOutside_of_get hget⟩
  · exact root_of_get h.root hget
  · rw [hgetq]
    by_cases hkey : q = name :: w
    · rw [if_pos hkey, hkey, Function.update_self, Option.some_inj, Option.some_inj, Entry.file.injEq]
    · rw [if_neg hkey, Function.update_of_ne hkey]
      exact h.file q c
  · rw [hgetq, or_iff_left (mt List.suffix_nil.mp hq)]
    by_cases hkey : q = name :: w
    · rw [if_pos hkey, hkey, leads_update_self_iff]
      exact ⟨nofun, fun hleads => absurd hleads hbelow⟩
    · have hvalue : Function.update m (name :: w) (some b) (name :: w) ≠ none := by
        rw [Function.update_self]
        exact Option.some_ne_none b
      rw [if_neg hkey, h.dir q hq, ← leads_update_or_iff hkey (some b)]
      exact or_iff_left_of_imp (leads_of_way hvalue)

/-- **A value is put at a key**, on whose way there is no other value, and below which there is none. -/
theorem put_value (h : Holds fs base m []) (hway : ∀ q, q <:+ w → m q = none) (hbelow : ¬ Leads m (name :: w)) (b : B) :
    ∃ fs₁ fs₂, fs.makeDirs (w ++ base) = .ok fs₁ ∧ fs₁.writeFile b (name :: w ++ base) = .ok fs₂ ∧
      Holds fs₂ base (Function.update m (name :: w) (some b)) [] ∧ SameOutside base fs fs₂ := by
  obtain ⟨fs₁, hmake, h₁, hsame₁⟩ := h.make_way hway
  obtain ⟨fs₂, hwrite, h₂, hsame₂⟩ := h₁.write_value hbelow b
  exact ⟨fs₁, fs₂, hmake, hwrite, h₂, hsame₁.trans hsame₂⟩

/-- **The file of a value is removed**, and the directories on its way are left. -/
theorem remove_value (h : Holds fs base m []) (hvalue : m (name :: w) = some b) :
    ∃ fs', fs.rm (name :: w ++ base) = .ok fs' ∧ Holds fs' base (Function.update m (name :: w) none) w ∧
      SameOutside base fs fs' := by
  obtain ⟨fs', hrm, hget⟩ := rm_ok ((h.file (name :: w) b).mpr hvalue)
  have hgetq := get_under hget
  refine ⟨fs', hrm, ⟨?_, fun q c => ?_, fun q hq => ?_⟩, sameOutside_of_get hget⟩
  · exact root_of_get h.root hget
  · rw [hgetq]
    by_cases hkey : q = name :: w
    · rw [if_pos hkey, hkey, Function.update_self]
      exact ⟨nofun, nofun⟩
    · rw [if_neg hkey, Function.update_of_ne hkey]
      exact h.file q c
  · rw [hgetq]
    by_cases hkey : q = name :: w
    · rw [if_pos hkey, hkey, leads_update_self_iff]
      refine ⟨nofun, ?_⟩
      rintro (hleads | hway)
      · exact absurd hleads (h.not_leads (List.cons_ne_nil name w) hvalue)
      · exact absurd hway (cons_not_suffix name w)
    · have hold : m (name :: w) ≠ none := by
        rw [hvalue]
        exact Option.some_ne_none b
      rw [if_neg hkey, h.dir q hq, or_iff_left (mt List.suffix_nil.mp hq), leads_update_or_iff hkey]
      exact (or_iff_left_of_imp (leads_of_way hold)).symm

/-- Where no value is below, there is an entry exactly for a value. -/
theorem get_eq_none_iff (h : Holds fs base m []) (hq : q ≠ []) (hbelow : ¬ Leads m q) :
    fs.get (q ++ base) = none ↔ m q = none := by
  constructor
  · intro hget
    cases hvalue : m q with
    | none => rfl
    | some c =>
      rw [(h.file q c).mpr hvalue] at hget
      cases hget
  · intro hvalue
    cases hget : fs.get (q ++ base) with
    | none => rfl
    | some e =>
      cases e with
      | file c =>
        rw [(h.file q c).mp hget] at hvalue
        cases hvalue
      | dir =>
        rcases (h.dir q hq).mp hget with hleads | hnil
        · exact absurd hleads hbelow
        · exact absurd (List.suffix_nil.mp hnil) hq

/-- A key without a value is taken for removed. -/
theorem rm_missing (h : Holds fs base m []) (hway : ∀ q, q <:+ name :: w → m q = none)
    (hbelow : ¬ Leads m (name :: w)) : fs.rm (name :: w ++ base) = .ok fs := by
  refine FileSystem.rm_missing ?_ (h.passable hway)
  exact (h.get_eq_none_iff (List.cons_ne_nil name w) hbelow).mpr (hway _ List.suffix_rfl)

/-- **One step of the removal of the empty directories.** It goes on with the directory above, or there was
a value below and nothing is left to be removed. -/
theorem rmdir_way (h : Holds fs base m (name :: w)) :
    (∃ fs', fs.rmdir (name :: w ++ base) = .ok fs' ∧ Holds fs' base m w ∧ SameOutside base fs fs') ∨
      (∃ e, fs.rmdir (name :: w ++ base) = .error e) ∧ Holds fs base m [] := by
  have hdir := (h.dir (name :: w) (List.cons_ne_nil name w)).mpr (.inr List.suffix_rfl)
  by_cases hleads : Leads m (name :: w)
  · refine .inr ⟨FileSystem.rmdir_refused fun _ => h.exists_below hleads, h.root, h.file, fun r hr => ?_⟩
    rw [h.dir r hr]
    constructor
    · rintro (hr' | hway)
      · exact .inl hr'
      · exact .inl (hleads.suffix hway)
    · rintro (hr' | hway)
      · exact .inl hr'
      · exact absurd (List.suffix_nil.mp hway) hr
  · have hbelow : ∀ below, fs.get (below :: (name :: (w ++ base))) = none := by
      intro below
      cases hget : fs.get (below :: (name :: (w ++ base))) with
      | none => rfl
      | some e =>
        exfalso
        cases e with
        | file c =>
          have hvalue := (h.file (below :: name :: w) c).mp hget
          exact hleads (leads_of_way (by rw [hvalue]; exact Option.some_ne_none c) List.suffix_rfl)
        | dir =>
          rcases (h.dir (below :: name :: w) (List.cons_ne_nil _ _)).mp hget with hleads' | hway
          · exact hleads (hleads'.suffix (List.suffix_cons _ _))
          · exact cons_not_suffix _ _ hway
    obtain ⟨fs', hrmdir, hget⟩ := rmdir_ok hdir hbelow
    have hgetq := get_under hget
    refine .inl ⟨fs', hrmdir, ⟨?_, fun r c => ?_, fun r hr => ?_⟩, sameOutside_of_get hget⟩
    · exact root_of_get h.root hget
    · rw [hgetq]
      by_cases hr : r = name :: w
      · rw [if_pos hr, hr, h.value_eq_none hdir]
        exact ⟨nofun, nofun⟩
      · rw [if_neg hr]
        exact h.file r c
    · rw [hgetq]
      by_cases hr' : r = name :: w
      · rw [if_pos hr', hr']
        refine ⟨nofun, ?_⟩
        rintro (hleads' | hway)
        · exact absurd hleads' hleads
        · exact absurd hway (cons_not_suffix name w)
      · rw [if_neg hr', h.dir r hr, List.suffix_cons_iff, or_iff_right hr']

end Holds

end Flat

end Neltrik.Lib.FileTree
