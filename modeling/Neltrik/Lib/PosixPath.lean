import Mathlib.Data.List.Basic
import Mathlib.Data.Nat.Notation

/-! # Paths as texts

`normalize`, `join` and `dirname` of the module `path` of Node on POSIX, and how the system finds the entry that
a path names (`resolve`), from its last segment up. No link is followed, so it makes no difference whether a path
is normalized before (`resolve_normalize`).

`absolute` and `relative` write a list of names as a path, again from the last name up; `join` and `dirname` of
such paths are such paths.
-/

namespace Neltrik.Lib.PosixPath

/-- What an entry of a directory may be called. -/
def IsName (cs : List Char) : Prop :=
  cs ≠ [] ∧ cs ≠ ['.'] ∧ cs ≠ ['.', '.'] ∧ '/' ∉ cs ∧ '\x00' ∉ cs

instance (cs : List Char) : Decidable (IsName cs) := by
  unfold IsName
  infer_instance

/-- A name of an entry. -/
structure Name where
  chars : List Char
  isName : IsName chars
  deriving DecidableEq

/-- What stands between the slashes. -/
def segments (path : List Char) : List (List Char) := path.splitOn '/'

/-- The segments, with slashes between them. -/
def slashed (segs : List (List Char)) : List Char := ['/'].intercalate segs

/-! ## Resolution -/

/-- One segment further from a directory. -/
def enter (dir : List Name) (seg : List Char) : List Name :=
  if h : IsName seg then ⟨seg, h⟩ :: dir
  else if seg = ['.', '.'] then dir.tail
  else dir

/-- Which entry a path names, from the root. -/
def resolve (path : List Char) : List Name := (segments path).foldl enter []

/-- The names as a path, from the last one up: from the root or not, with a slash at the end or not. -/
def written (front : Bool) (p : List Name) (back : Bool) : List Char :=
  (if front then ['/'] else []) ++ slashed (p.reverse.map Name.chars) ++ (if back then ['/'] else [])

/-! ## The module `path` -/

/-- One segment of `normalizeString`; the last one of the result is the first of the stack. -/
def push (allowAboveRoot : Bool) (stack : List (List Char)) (seg : List Char) : List (List Char) :=
  if seg = [] ∨ seg = ['.'] then stack
  else if seg = ['.', '.'] then
    match stack with
    | [] => if allowAboveRoot then [['.', '.']] else []
    | last :: rest =>
      if last = ['.', '.'] then if allowAboveRoot then ['.', '.'] :: last :: rest else last :: rest
      else rest
  else seg :: stack

/-- The segments without `.`, and without `..` as far as it can be. -/
def normalizeString (path : List Char) (allowAboveRoot : Bool) : List (List Char) :=
  ((segments path).foldl (push allowAboveRoot) []).reverse

/-- It begins with a slash. -/
def isAbsolute (path : List Char) : Bool := path.head? = some '/'

/-- It ends with a slash. -/
def hasTrailingSeparator (path : List Char) : Bool := path.getLast? = some '/'

/-- `path.normalize`. -/
def normalize (path : List Char) : List Char :=
  if path = [] then ['.']
  else
    match normalizeString path (!isAbsolute path) with
    | [] => if isAbsolute path then ['/'] else if hasTrailingSeparator path then ['.', '/'] else ['.']
    | segs =>
      (if isAbsolute path then ['/'] else []) ++ slashed segs ++ (if hasTrailingSeparator path then ['/'] else [])

/-- `path.join`. -/
def join (paths : List (List Char)) : List Char :=
  match paths.filter (· ≠ []) with
  | [] => ['.']
  | paths => normalize (slashed paths)

/-- What stands before the last segment, from its end, with the slash between. -/
def beforeLast (path : List Char) : List Char := (path.reverse.dropWhile (· = '/')).dropWhile (· ≠ '/')

/-- `path.dirname`. -/
def dirname : List Char → List Char
  | [] => ['.']
  | c :: rest =>
    match beforeLast rest with
    | [] => if c = '/' then ['/'] else ['.']
    | _ :: front => if c = '/' ∧ front = [] then ['/', '/'] else c :: front.reverse

/-! ## Segments -/

section Segments
variable {path : List Char} {segs : List (List Char)}

theorem segments_ne_nil (path : List Char) : segments path ≠ [] := List.splitOn_ne_nil '/' path

theorem segments_slashed (h : ∀ seg ∈ segs, '/' ∉ seg) (hne : segs ≠ []) : segments (slashed segs) = segs :=
  List.splitOn_intercalate '/' h hne

theorem segments_append (path path' : List Char) :
    segments (path ++ '/' :: path') = segments path ++ segments path' :=
  List.splitOn_append_cons_self path path'

/-- A segment has no slash, and its characters are those of the path. -/
theorem of_mem_segments : ∀ seg ∈ segments path, '/' ∉ seg ∧ ∀ c ∈ seg, c ∈ path := by
  induction path with
  | nil =>
    intro seg hseg
    rw [List.mem_singleton.mp hseg]
    exact ⟨List.not_mem_nil, nofun⟩
  | cons c path ih =>
    intro seg hseg
    rw [segments, List.splitOn_cons_eq_if_modifyHead] at hseg
    by_cases hc : c = '/'
    · rw [if_pos (beq_iff_eq.mpr hc)] at hseg
      rcases List.mem_cons.mp hseg with rfl | hseg
      · exact ⟨List.not_mem_nil, nofun⟩
      · exact ⟨(ih seg hseg).1, fun d hd => List.mem_cons_of_mem c ((ih seg hseg).2 d hd)⟩
    · rw [if_neg (mt beq_iff_eq.mp hc)] at hseg
      cases hsegs : List.splitOn '/' path with
      | nil =>
        rw [hsegs] at hseg
        cases hseg
      | cons s ss =>
        have hall : ∀ seg ∈ s :: ss, '/' ∉ seg ∧ ∀ c ∈ seg, c ∈ path := by
          rw [segments, hsegs] at ih
          exact ih
        rw [hsegs] at hseg
        rcases List.mem_cons.mp hseg with rfl | hseg
        · obtain ⟨hslash, hchars⟩ := hall s List.mem_cons_self
          refine ⟨fun h => ?_, fun d hd => ?_⟩
          · rcases List.mem_cons.mp h with h | h
            · exact hc h.symm
            · exact hslash h
          · rcases List.mem_cons.mp hd with rfl | hd
            · exact List.mem_cons_self
            · exact List.mem_cons_of_mem c (hchars d hd)
        · obtain ⟨hslash, hchars⟩ := hall seg (List.mem_cons_of_mem s hseg)
          exact ⟨hslash, fun d hd => List.mem_cons_of_mem c (hchars d hd)⟩

theorem slashed_cons {seg : List Char} (hne : segs ≠ []) : slashed (seg :: segs) = seg ++ '/' :: slashed segs := by
  rw [slashed, List.intercalate_cons_of_ne_nil hne, List.append_assoc]
  rfl

theorem slashed_singleton (seg : List Char) : slashed [seg] = seg := List.intercalate_singleton

theorem slashed_append {segs' : List (List Char)} (hne : segs ≠ []) (hne' : segs' ≠ []) :
    slashed (segs ++ segs') = slashed segs ++ '/' :: slashed segs' := by
  induction segs with
  | nil => exact absurd rfl hne
  | cons seg segs ih =>
    cases segs with
    | nil =>
      rw [List.singleton_append, slashed_cons hne', slashed_singleton]
    | cons seg' segs =>
      have htail : seg' :: segs ++ segs' ≠ [] := List.cons_ne_nil seg' (segs ++ segs')
      rw [List.cons_append, slashed_cons htail, slashed_cons (List.cons_ne_nil seg' segs),
        ih (List.cons_ne_nil seg' segs), List.append_assoc, List.cons_append]

theorem mem_slashed {c : Char} (h : c ∈ slashed segs) : c = '/' ∨ ∃ seg ∈ segs, c ∈ seg := by
  induction segs with
  | nil => cases h
  | cons seg segs ih =>
    cases segs with
    | nil =>
      rw [slashed_singleton] at h
      exact .inr ⟨seg, List.mem_cons_self, h⟩
    | cons seg' segs =>
      rw [slashed_cons (List.cons_ne_nil seg' segs)] at h
      rcases List.mem_append.mp h with h | h
      · exact .inr ⟨seg, List.mem_cons_self, h⟩
      · rcases List.mem_cons.mp h with h | h
        · exact .inl h
        · rcases ih h with hslash | ⟨s, hs, hc⟩
          · exact .inl hslash
          · exact .inr ⟨s, List.mem_cons_of_mem seg hs, hc⟩

end Segments

/-! ## The directory of a path is shorter -/

theorem length_beforeLast_lt {path : List Char} (h : path ≠ []) : (beforeLast path).length < path.length := by
  have hlength : path.reverse.length = path.length := List.length_reverse
  unfold beforeLast
  cases hreverse : path.reverse with
  | nil => exact absurd (List.reverse_eq_nil_iff.mp hreverse) h
  | cons c rest =>
    rw [hreverse, List.length_cons] at hlength
    by_cases hc : c = '/'
    · rw [List.dropWhile_cons_of_pos (by simpa using hc)]
      have h₁ := (List.dropWhile_suffix (l := rest) (p := fun d => decide (d = '/'))).length_le
      have h₂ := (List.dropWhile_suffix (l := rest.dropWhile (· = '/')) (p := fun d => decide (d ≠ '/'))).length_le
      omega
    · rw [List.dropWhile_cons_of_neg (by simpa using hc), List.dropWhile_cons_of_pos (by simpa using hc)]
      have h₁ := (List.dropWhile_suffix (l := rest) (p := fun d => decide (d ≠ '/'))).length_le
      omega

theorem length_dirname_lt {path : List Char} (h : 1 < path.length) : (dirname path).length < path.length := by
  cases path with
  | nil => exact absurd h (Nat.not_lt_zero 1)
  | cons c rest =>
    have hrest : rest ≠ [] := by
      rintro rfl
      exact absurd h (Nat.lt_irrefl 1)
    have hlt := length_beforeLast_lt hrest
    rw [dirname]
    cases hbefore : beforeLast rest with
    | nil =>
      by_cases hc : c = '/'
      · rw [if_pos hc]
        exact h
      · rw [if_neg hc]
        exact h
    | cons d front =>
      rw [hbefore, List.length_cons] at hlt
      dsimp only
      by_cases hroot : c = '/' ∧ front = []
      · rw [if_pos hroot]
        show 2 < rest.length + 1
        omega
      · rw [if_neg hroot, List.length_cons, List.length_cons, List.length_reverse]
        omega

/-! ## Normalizing names no other entry -/

section Resolve
variable {path : List Char} {seg : List Char} {stack : List (List Char)} {above : Bool}

theorem enter_nil (dir : List Name) : enter dir [] = dir := by
  rw [enter, dif_neg fun h => h.1 rfl, if_neg nofun]

theorem enter_dot (dir : List Name) : enter dir ['.'] = dir := by
  rw [enter, dif_neg fun h => h.2.1 rfl, if_neg (by decide)]

theorem enter_dots (dir : List Name) : enter dir ['.', '.'] = dir.tail := by
  rw [enter, dif_neg fun h => h.2.2.1 rfl, if_pos rfl]

theorem enter_name (dir : List Name) (name : Name) : enter dir name.chars = name :: dir := by
  rw [enter, dif_pos name.isName]

/-- What the stack holds: names, and `..` where one may go above the root. -/
def OnStack (above : Bool) (seg : List Char) : Prop := IsName seg ∨ above = true ∧ seg = ['.', '.']

/-- A segment of a path that the system accepts. -/
def IsSegment (seg : List Char) : Prop := seg = [] ∨ seg = ['.'] ∨ seg = ['.', '.'] ∨ IsName seg

theorem isSegment_of_mem (hnul : '\x00' ∉ path) (hseg : seg ∈ segments path) : IsSegment seg := by
  obtain ⟨hslash, hchars⟩ := of_mem_segments seg hseg
  by_cases h : seg = []
  · exact .inl h
  · by_cases hdot : seg = ['.']
    · exact .inr (.inl hdot)
    · by_cases hdots : seg = ['.', '.']
      · exact .inr (.inr (.inl hdots))
      · exact .inr (.inr (.inr ⟨h, hdot, hdots, hslash, fun hc => hnul (hchars _ hc)⟩))

theorem push_name (h : IsName seg) : push above stack seg = seg :: stack := by
  unfold push
  rw [if_neg (not_or.mpr ⟨h.1, h.2.1⟩), if_neg h.2.2.1]

/-- `..` takes back a name. -/
theorem push_dots_name {last : List Char} (h : IsName last) : push above (last :: stack) ['.', '.'] = stack :=
  if_neg h.2.2.1

/-- Above the root `..` stays. -/
theorem push_dots_dots : push true (['.', '.'] :: stack) ['.', '.'] = ['.', '.'] :: ['.', '.'] :: stack := rfl

theorem push_onStack (hstack : ∀ s ∈ stack, OnStack above s) (hseg : IsSegment seg) :
    ∀ s ∈ push above stack seg, OnStack above s := by
  rcases hseg with rfl | rfl | rfl | hname
  · exact hstack
  · exact hstack
  · cases stack with
    | nil =>
      cases above with
      | false => exact nofun
      | true => exact List.forall_mem_singleton.mpr (.inr ⟨rfl, rfl⟩)
    | cons last rest =>
      rcases hstack last List.mem_cons_self with hlast | ⟨rfl, rfl⟩
      · rw [push_dots_name hlast]
        exact fun s hs => hstack s (List.mem_cons_of_mem last hs)
      · rw [push_dots_dots]
        exact List.forall_mem_cons.mpr ⟨.inr ⟨rfl, rfl⟩, hstack⟩
  · rw [push_name hname]
    exact List.forall_mem_cons.mpr ⟨.inl hname, hstack⟩

theorem foldl_enter_concat (segs : List (List Char)) (seg : List Char) :
    (seg :: segs).reverse.foldl enter [] = enter (segs.reverse.foldl enter []) seg := by
  rw [List.reverse_cons, List.foldl_append]
  rfl

/-- Who walks along the stack is where the walk along the segments is. -/
theorem foldl_enter_push (hstack : ∀ s ∈ stack, OnStack above s) (hseg : IsSegment seg) :
    (push above stack seg).reverse.foldl enter [] = enter (stack.reverse.foldl enter []) seg := by
  rcases hseg with rfl | rfl | rfl | hname
  · exact (enter_nil _).symm
  · exact (enter_dot _).symm
  · cases stack with
    | nil => cases above <;> rfl
    | cons last rest =>
      rcases hstack last List.mem_cons_self with hlast | ⟨rfl, rfl⟩
      · rw [push_dots_name hlast, foldl_enter_concat, enter_dots, enter_name _ ⟨last, hlast⟩]
        rfl
      · rw [push_dots_dots]
        exact foldl_enter_concat _ _
  · rw [push_name hname]
    exact foldl_enter_concat _ _

theorem foldl_enter_normalizeString (hnul : '\x00' ∉ path) (above : Bool) :
    (normalizeString path above).foldl enter [] = resolve path ∧ ∀ s ∈ normalizeString path above, OnStack above s := by
  have hgo : ∀ (segs : List (List Char)) (stack : List (List Char)), (∀ seg ∈ segs, IsSegment seg) →
      (∀ s ∈ stack, OnStack above s) →
      (segs.foldl (push above) stack).reverse.foldl enter [] = segs.foldl enter (stack.reverse.foldl enter []) ∧
        ∀ s ∈ segs.foldl (push above) stack, OnStack above s := by
    intro segs
    induction segs with
    | nil => exact fun stack _ hstack => ⟨rfl, hstack⟩
    | cons seg segs ih =>
      intro stack hsegs hstack
      obtain ⟨hseg, hsegs⟩ := List.forall_mem_cons.mp hsegs
      obtain ⟨hfold, hon⟩ := ih (push above stack seg) hsegs (push_onStack hstack hseg)
      rw [foldl_enter_push hstack hseg] at hfold
      exact ⟨hfold, hon⟩
  obtain ⟨hfold, hon⟩ := hgo (segments path) [] (fun seg hseg => isSegment_of_mem hnul hseg) nofun
  exact ⟨hfold, fun s hs => hon s (List.mem_reverse.mp hs)⟩

theorem OnStack.no_slash (h : OnStack above seg) : '/' ∉ seg := by
  rcases h with hname | ⟨-, rfl⟩
  · exact hname.2.2.2.1
  · decide

/-- Slashes before and behind make no difference. -/
theorem resolve_slashed {segs : List (List Char)} (h : ∀ s ∈ segs, '/' ∉ s) (hne : segs ≠ []) (front back : Bool) :
    resolve ((if front then ['/'] else []) ++ slashed segs ++ (if back then ['/'] else [])) = segs.foldl enter [] := by
  have hfront : resolve ((if front then ['/'] else []) ++ slashed segs) = segs.foldl enter [] := by
    cases front with
    | false => exact congrArg (List.foldl enter []) (segments_slashed h hne)
    | true =>
      show (segments ([] ++ '/' :: slashed segs)).foldl enter [] = _
      rw [segments_append, segments_slashed h hne]
      show segs.foldl enter (enter [] []) = _
      rw [enter_nil]
  cases back with
  | false =>
    rw [← hfront]
    exact congrArg resolve (List.append_nil _)
  | true =>
    show (segments (_ ++ '/' :: [])).foldl enter [] = _
    rw [segments_append, List.foldl_append]
    show enter (resolve _) [] = _
    rw [enter_nil, hfront]

/-- **Normalizing a path does not change what it names.** -/
theorem resolve_normalize (hnul : '\x00' ∉ path) : resolve (normalize path) = resolve path := by
  unfold normalize
  by_cases hpath : path = []
  · rw [if_pos hpath, hpath]
    rfl
  · rw [if_neg hpath]
    obtain ⟨hfold, hon⟩ := foldl_enter_normalizeString hnul (!isAbsolute path)
    cases hsegs : normalizeString path (!isAbsolute path) with
    | nil =>
      rw [hsegs] at hfold
      rw [← hfold]
      cases isAbsolute path <;> cases hasTrailingSeparator path <;> rfl
    | cons seg segs =>
      rw [hsegs] at hfold hon
      rw [← hfold]
      exact resolve_slashed (fun s hs => (hon s hs).no_slash) (List.cons_ne_nil seg segs) _ _

theorem join_pair {path' : List Char} (hne : path' ≠ []) :
    join [path, path'] = normalize (if path = [] then path' else path ++ '/' :: path') := by
  by_cases hpath : path = []
  · rw [if_pos hpath, join, List.filter_cons_of_neg (by simpa using hpath), List.filter_cons_of_pos (by simpa using hne)]
    exact congrArg normalize (slashed_singleton path')
  · rw [if_neg hpath, join, List.filter_cons_of_pos (by simpa using hpath),
      List.filter_cons_of_pos (by simpa using hne)]
    refine congrArg normalize ?_
    show slashed [path, path'] = _
    rw [slashed_cons (List.cons_ne_nil path' []), slashed_singleton]

/-- The entry that is reached from one path along another one. -/
theorem resolve_join {path' : List Char} (hnul : '\x00' ∉ path) (hnul' : '\x00' ∉ path') (hne : path' ≠ []) :
    resolve (join [path, path']) = (segments path').foldl enter (resolve path) := by
  rw [join_pair hne]
  by_cases hpath : path = []
  · rw [if_pos hpath, resolve_normalize hnul', hpath]
    rfl
  · have hboth : '\x00' ∉ path ++ '/' :: path' := by
      intro h
      rcases List.mem_append.mp h with h | h
      · exact hnul h
      · rcases List.mem_cons.mp h with h | h
        · cases h
        · exact hnul' h
    rw [if_neg hpath, resolve_normalize hboth, resolve, segments_append, List.foldl_append]
    rfl

theorem segments_name (name : Name) : segments name.chars = [name.chars] :=
  List.splitOn_eq_singleton name.isName.2.2.2.1

theorem resolve_join_name (hnul : '\x00' ∉ path) (name : Name) :
    resolve (join [path, name.chars]) = name :: resolve path := by
  rw [resolve_join hnul name.isName.2.2.2.2 name.isName.1, segments_name]
  exact enter_name _ name

end Resolve

/-! ## Written paths -/

section Written
variable {p q : List Name} {front middle back : Bool}

theorem isName_of_mem {seg : List Char} (h : seg ∈ p.reverse.map Name.chars) : IsName seg := by
  obtain ⟨name, -, rfl⟩ := List.mem_map.mp h
  exact name.isName

theorem texts_ne_nil (hp : p ≠ []) : p.reverse.map Name.chars ≠ [] := by
  rw [Ne, List.map_eq_nil_iff, List.reverse_eq_nil_iff]
  exact hp

theorem texts_append (p q : List Name) :
    (q ++ p).reverse.map Name.chars = p.reverse.map Name.chars ++ q.reverse.map Name.chars := by
  rw [List.reverse_append, List.map_append]

theorem segments_written (hp : p ≠ []) : segments (written front p back) =
    (if front then [[]] else []) ++ p.reverse.map Name.chars ++ (if back then [[]] else []) := by
  have hnames : segments (slashed (p.reverse.map Name.chars)) = p.reverse.map Name.chars :=
    segments_slashed (fun seg hseg => (isName_of_mem hseg).2.2.2.1) (texts_ne_nil hp)
  have hfront : segments ((if front then ['/'] else []) ++ slashed (p.reverse.map Name.chars)) =
      (if front then [[]] else []) ++ p.reverse.map Name.chars := by
    cases front with
    | false => exact hnames
    | true =>
      show segments ([] ++ '/' :: slashed (p.reverse.map Name.chars)) = _
      rw [segments_append, hnames]
      rfl
  cases back with
  | false =>
    rw [written]
    show segments (_ ++ []) = _ ++ []
    rw [List.append_nil, List.append_nil, hfront]
  | true =>
    show segments (_ ++ '/' :: []) = _
    rw [segments_append, hfront]
    rfl

theorem resolve_written (hp : p ≠ []) : resolve (written front p back) = p := by
  have hgo : ∀ ns dir : List Name, (ns.map Name.chars).foldl enter dir = ns.reverse ++ dir := by
    intro ns
    induction ns with
    | nil => exact fun dir => rfl
    | cons name ns ih =>
      intro dir
      show (ns.map Name.chars).foldl enter (enter dir name.chars) = _
      rw [enter_name, ih, List.reverse_cons, List.append_assoc]
      rfl
  have hslash : ∀ seg ∈ p.reverse.map Name.chars, '/' ∉ seg := fun seg hseg => (isName_of_mem hseg).2.2.2.1
  have hresolve := resolve_slashed hslash (texts_ne_nil hp) front back
  rw [hgo, List.reverse_reverse, List.append_nil] at hresolve
  exact hresolve

/-- Names do not begin with a slash. -/
theorem exists_head (hp : p ≠ []) : ∃ c rest, slashed (p.reverse.map Name.chars) = c :: rest ∧ c ≠ '/' := by
  cases hseg : p.reverse.map Name.chars with
  | nil => exact absurd hseg (texts_ne_nil hp)
  | cons seg segs =>
    have hname : IsName seg := isName_of_mem (p := p) (by rw [hseg]; exact List.mem_cons_self)
    obtain ⟨c, rest, rfl⟩ := List.exists_cons_of_ne_nil hname.1
    have hc : c ≠ '/' := fun h => hname.2.2.2.1 (by rw [h]; exact List.mem_cons_self)
    cases segs with
    | nil => exact ⟨c, rest, slashed_singleton _, hc⟩
    | cons seg' segs => exact ⟨c, _, slashed_cons (List.cons_ne_nil seg' segs), hc⟩

/-- Nor do they end with one. -/
theorem exists_last (hp : p ≠ []) : ∃ rest c, slashed (p.reverse.map Name.chars) = rest ++ [c] ∧ c ≠ '/' := by
  cases p with
  | nil => exact absurd rfl hp
  | cons name p =>
    obtain ⟨rest, c, hchars⟩ := (List.eq_nil_or_concat name.chars).resolve_left name.isName.1
    rw [List.concat_eq_append] at hchars
    have hc : c ≠ '/' := fun h => name.isName.2.2.2.1 (by rw [hchars, h]; exact List.mem_concat_self)
    rw [List.reverse_cons, List.map_append, List.map_singleton]
    by_cases hnil : p = []
    · rw [hnil]
      exact ⟨rest, c, (slashed_singleton _).trans hchars, hc⟩
    · rw [slashed_append (texts_ne_nil hnil) (List.cons_ne_nil _ _)]
      refine ⟨slashed (p.reverse.map Name.chars) ++ '/' :: rest, c, ?_, hc⟩
      rw [List.append_assoc, List.cons_append, ← hchars, slashed_singleton]

theorem isAbsolute_written (hp : p ≠ []) : isAbsolute (written front p back) = front := by
  cases front with
  | true => rfl
  | false =>
    obtain ⟨c, rest, hslashed, hc⟩ := exists_head hp
    unfold written
    rw [hslashed]
    exact decide_eq_false fun h => hc (Option.some.inj h)

theorem isAbsolute_append {path path' : List Char} (h : path ≠ []) : isAbsolute (path ++ path') = isAbsolute path := by
  obtain ⟨c, rest, rfl⟩ := List.exists_cons_of_ne_nil h
  rfl

theorem hasTrailingSeparator_append (hp : p ≠ []) (prior : List Char) :
    hasTrailingSeparator (prior ++ written front p back) = back := by
  cases back with
  | true =>
    refine decide_eq_true ?_
    rw [written, ← List.append_assoc]
    exact List.getLast?_concat
  | false =>
    obtain ⟨rest, c, hslashed, hc⟩ := exists_last hp
    refine decide_eq_false ?_
    rw [written, hslashed]
    show (prior ++ ((_ ++ (rest ++ [c])) ++ [])).getLast? ≠ _
    rw [List.append_nil, ← List.append_assoc, ← List.append_assoc, List.getLast?_concat]
    exact fun h => hc (Option.some.inj h)

/-- Of names and empty segments the names are kept. -/
theorem normalizeString_names {path : List Char} {above : Bool} (h : ∀ seg ∈ segments path, seg = [] ∨ IsName seg) :
    normalizeString path above = (segments path).filter (· ≠ []) := by
  have hgo : ∀ segs stack : List (List Char), (∀ seg ∈ segs, seg = [] ∨ IsName seg) →
      segs.foldl (push above) stack = (segs.filter (· ≠ [])).reverse ++ stack := by
    intro segs
    induction segs with
    | nil => exact fun stack _ => rfl
    | cons seg segs ih =>
      intro stack hsegs
      obtain ⟨hseg, hsegs⟩ := List.forall_mem_cons.mp hsegs
      rw [List.foldl_cons, ih _ hsegs]
      rcases hseg with rfl | hname
      · rfl
      · rw [push_name hname, List.filter_cons_of_pos (by simpa using hname.1), List.reverse_cons, List.append_assoc]
        rfl
  rw [normalizeString, hgo _ [] h, List.append_nil, List.reverse_reverse]

theorem written_ne_nil (hp : p ≠ []) : written front p back ≠ [] := by
  obtain ⟨c, rest, hslashed, -⟩ := exists_head hp
  rw [written, hslashed]
  cases front <;> exact List.cons_ne_nil _ _

theorem mem_segments_written (hp : p ≠ []) : ∀ seg ∈ segments (written front p back), seg = [] ∨ IsName seg := by
  intro seg hseg
  rw [segments_written hp] at hseg
  rcases List.mem_append.mp hseg with hseg | hseg
  · rcases List.mem_append.mp hseg with hseg | hseg
    · cases front with
      | false => cases hseg
      | true => exact .inl (List.mem_singleton.mp hseg)
    · exact .inr (isName_of_mem hseg)
  · cases back with
    | false => cases hseg
    | true => exact .inl (List.mem_singleton.mp hseg)

theorem filter_segments_written (hp : p ≠ []) :
    (segments (written front p back)).filter (· ≠ []) = p.reverse.map Name.chars := by
  have hnames : (p.reverse.map Name.chars).filter (· ≠ []) = p.reverse.map Name.chars :=
    List.filter_eq_self.mpr fun seg hseg => decide_eq_true (isName_of_mem hseg).1
  rw [segments_written hp, List.filter_append, List.filter_append, hnames]
  cases front <;> cases back <;> exact List.append_nil _

/-- **Written paths are joined as their names are.** -/
theorem join_written (hp : p ≠ []) (hq : q ≠ []) :
    join [written front p middle, written false q back] = written front (q ++ p) back := by
  rw [join_pair (written_ne_nil hq), if_neg (written_ne_nil hp)]
  have hsegs : ∀ seg ∈ segments (written front p middle ++ '/' :: written false q back), seg = [] ∨ IsName seg := by
    rw [segments_append]
    exact List.forall_mem_append.mpr ⟨mem_segments_written hp, mem_segments_written hq⟩
  have hnames : (segments (written front p middle ++ '/' :: written false q back)).filter (· ≠ []) =
      (q ++ p).reverse.map Name.chars := by
    rw [segments_append, List.filter_append, filter_segments_written hp, filter_segments_written hq, texts_append]
  have habsolute : isAbsolute (written front p middle ++ '/' :: written false q back) = front := by
    rw [isAbsolute_append (written_ne_nil hp), isAbsolute_written hp]
  have htrailing : hasTrailingSeparator (written front p middle ++ '/' :: written false q back) = back := by
    rw [← List.singleton_append, ← List.append_assoc]
    exact hasTrailingSeparator_append hq _
  obtain ⟨seg, segs, hcons⟩ := List.exists_cons_of_ne_nil (texts_ne_nil (List.append_ne_nil_of_right_ne_nil q hp))
  rw [normalize, if_neg (List.append_ne_nil_of_left_ne_nil (written_ne_nil hp) _), normalizeString_names hsegs, hnames,
    habsolute, htrailing, written, hcons]

/-- A name at the end of a path. -/
theorem join_name (hp : p ≠ []) (name : Name) : join [written front p middle, name.chars] = written front (name :: p) false := by
  have hname : written false [name] false = name.chars := by
    show [] ++ slashed [name.chars] ++ [] = name.chars
    rw [List.append_nil, List.nil_append, slashed_singleton]
  rw [← hname]
  exact join_written hp (List.cons_ne_nil name [])

/-- A written path with a name below it. -/
theorem written_cons (name : Name) (hp : p ≠ []) :
    written front (name :: p) false = written front p false ++ '/' :: name.chars := by
  unfold written
  rw [List.reverse_cons, List.map_append, List.map_singleton, slashed_append (texts_ne_nil hp) (List.cons_ne_nil _ _),
    slashed_singleton]
  show _ ++ _ ++ [] = _ ++ _ ++ [] ++ _
  rw [List.append_nil, List.append_nil, List.append_assoc]

theorem beforeLast_append (path : List Char) (name : Name) :
    beforeLast (path ++ '/' :: name.chars) = '/' :: path.reverse := by
  obtain ⟨front, d, hchars⟩ := (List.eq_nil_or_concat name.chars).resolve_left name.isName.1
  have hslash := name.isName.2.2.2.1
  rw [List.concat_eq_append] at hchars
  have hd : d ≠ '/' := fun h => hslash (by rw [hchars, h]; exact List.mem_concat_self)
  have hall : ∀ c ∈ name.chars.reverse, decide (c ≠ '/') = true := fun c hc =>
    decide_eq_true fun h => hslash (h ▸ List.mem_reverse.mp hc)
  have hreverse : (path ++ '/' :: name.chars).reverse = name.chars.reverse ++ '/' :: path.reverse := by
    rw [List.reverse_append, List.reverse_cons, List.append_assoc]
    rfl
  have hkept : (name.chars.reverse ++ '/' :: path.reverse).dropWhile (· = '/') =
      name.chars.reverse ++ '/' :: path.reverse := by
    rw [hchars, List.reverse_append, List.reverse_singleton]
    exact List.dropWhile_cons_of_neg (by simpa using hd)
  rw [beforeLast, hreverse, hkept, List.dropWhile_append_of_pos hall]
  exact List.dropWhile_cons_of_neg (by simp)

/-- **The directory of a written path.** -/
theorem dirname_written (name : Name) (hp : p ≠ []) : dirname (written true (name :: p) false) = written true p false := by
  obtain ⟨c, rest, hslashed, -⟩ := exists_head hp
  have hwritten : written true p false = '/' :: c :: rest := by
    show ['/'] ++ slashed (p.reverse.map Name.chars) ++ [] = _
    rw [hslashed, List.append_nil]
    rfl
  rw [written_cons name hp, hwritten, List.cons_append, dirname, beforeLast_append]
  have hne : ¬ ('/' = '/' ∧ (c :: rest).reverse = []) := fun h => List.cons_ne_nil c rest (List.reverse_eq_nil_iff.mp h.2)
  exact (if_neg hne).trans (congrArg (List.cons '/') (List.reverse_reverse (c :: rest)))

theorem written_inj (hp : p ≠ []) (hq : q ≠ []) : written front p back = written front q back ↔ p = q := by
  refine ⟨fun h => ?_, fun h => by rw [h]⟩
  rw [← resolve_written hp, h, resolve_written hq]

theorem written_isPrefix (hp : p ≠ []) (w : List Name) : written front p false <+: written front (w ++ p) false := by
  induction w with
  | nil => exact List.prefix_rfl
  | cons name w ih =>
    rw [List.cons_append, written_cons name (List.append_ne_nil_of_right_ne_nil w hp)]
    exact ih.trans (List.prefix_append _ _)

theorem not_mem_written : '\x00' ∉ written front p back := by
  have hnames : '\x00' ∉ slashed (p.reverse.map Name.chars) := by
    intro h
    rcases mem_slashed h with hslash | ⟨seg, hseg, hc⟩
    · exact absurd hslash (by decide)
    · exact (isName_of_mem hseg).2.2.2.2 hc
  intro h
  rcases List.mem_append.mp h with h | h
  · rcases List.mem_append.mp h with h | h
    · cases front with
      | false => cases h
      | true => exact absurd (List.mem_singleton.mp h) (by decide)
    · exact hnames h
  · cases back with
    | false => cases h
    | true => exact absurd (List.mem_singleton.mp h) (by decide)

theorem chars_injective : Function.Injective Name.chars := fun a b h => by
  cases a
  cases b
  cases h
  rfl

theorem written_true : written front p true = written front p false ++ ['/'] := by
  show _ = _ ++ [] ++ _
  rw [List.append_nil]
  rfl

/-- **What begins with a directory is under it.** -/
theorem written_isPrefix_iff (hp : p ≠ []) (hq : q ≠ []) :
    written false q true <+: written false p false ↔ q <:+ p ∧ q ≠ p := by
  rw [written_true]
  constructor
  · rintro ⟨t, ht⟩
    have hsegs := congrArg segments ht
    rw [List.append_assoc, List.singleton_append, segments_append, segments_written hq, segments_written hp] at hsegs
    have hnames : p.reverse.map Name.chars = q.reverse.map Name.chars ++ segments t := by
      simpa using hsegs.symm
    obtain ⟨a, b, hp', ha, hb⟩ := List.map_eq_append_iff.mp hnames
    have ha' : a = q.reverse := List.map_injective_iff.mpr chars_injective ha
    have hb' : b ≠ [] := by
      rintro rfl
      exact segments_ne_nil t hb.symm
    have hpq : p = b.reverse ++ q := by
      rw [← List.reverse_reverse p, hp', ha', List.reverse_append, List.reverse_reverse]
    refine ⟨⟨b.reverse, hpq.symm⟩, fun heq => hb' ?_⟩
    rw [heq] at hpq
    exact List.reverse_eq_nil_iff.mp (List.self_eq_append_left.mp hpq)
  · rintro ⟨⟨r, rfl⟩, hne⟩
    rcases List.eq_nil_or_concat r with rfl | ⟨r, name, rfl⟩
    · exact absurd rfl hne
    · rw [List.concat_eq_append, List.append_assoc, List.singleton_append]
      refine List.IsPrefix.trans ?_ (written_isPrefix (List.cons_ne_nil name q) r)
      rw [written_cons name hq]
      exact (List.prefix_append_right_inj _).mpr ⟨name.chars, rfl⟩

end Written

end Neltrik.Lib.PosixPath
