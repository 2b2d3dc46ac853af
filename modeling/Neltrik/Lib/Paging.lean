import Neltrik.Lib.Machine
import Neltrik.Lib.Table
import Mathlib.Data.List.Sort

/-! # Reading an ordered table page by page

The rows of a table that a filter selects are read in descending order of a key, at most `limit` of them
at a time, while rows come in and leave the filter. The cursor of a page is the id of the last row of
the page before. It stands for the place of its row in the order, whether or not the filter still
selects the row; the first of the selected rows from that place on is skipped. One row more than the
page holds is read, to see if there is a next page.

* `Complete`: the rows are listed in order and once, and of those that have been selected all the time
  each one is listed that is not behind the place reached.
* `complete_iff`: that is so in every state of a run exactly when no step skips a row that has been
  selected all the time, unless it is the row of the cursor.
* `countP_page_le`: without insertions the reading ends.
-/

namespace Neltrik.Lib.Paging

open Machine Table

variable {α ι κ : Type*}

/-- How the rows are identified, ordered and selected, and what every row meets. -/
structure Listing (α ι κ : Type*) where
  id : α → ι
  key : α → κ
  selects : α → Bool
  valid : α → Bool

namespace Listing

variable [LinearOrder κ] (L : Listing α ι κ)

/-- The selected rows in their order. -/
def sorted (rows : List α) : List α := (rows.filter L.selects).insertionSort fun a b => L.key b ≤ L.key a

/-- The selected rows from the place of the cursor on; an unknown cursor has no place. -/
def startingAt [DecidableEq ι] (rows : List α) : Option ι → List α
  | none => L.sorted rows
  | some cursor =>
    match rows.find? (L.id · == cursor) with
    | none => []
    | some row => (L.sorted rows).filter fun a => L.key a ≤ L.key row

/-- The rows of a page and the cursor of the next one, if there is one. -/
def page [DecidableEq ι] (limit : ℕ) (rows : List α) (cursor : Option ι) : List α × Option ι :=
  let items := ((L.startingAt rows cursor).drop (if cursor.isSome then 1 else 0)).take (limit + 1)
  (items.take limit, if limit < items.length then (items.take limit).getLast?.map L.id else none)

end Listing

/-- `next` is the cursor of the next page, `some none` before the first one and `none` after the last
one. `throughout` has the rows that have been selected since the beginning. -/
structure State (α ι : Type*) where
  rows : List α
  next : Option (Option ι)
  listed : List α
  throughout : List α

/-- `leave` writes a row that is not selected over the one of its id. -/
inductive Label (α : Type*) where
  | insert (row : α)
  | leave (row : α)
  | page

def Label.isInsert : Label α → Bool
  | .insert _ => true
  | _ => false

def Label.isPage : Label α → Bool
  | .page => true
  | _ => false

section Machine
variable [LinearOrder κ] (L : Listing α ι κ) (pageOf : List α → Option ι → List α × Option ι)

/-- The state before the first page. -/
def begin (rows : List α) : State α ι := ⟨rows, some none, [], L.sorted rows⟩

/-- `pageOf` reads a page. -/
def step [DecidableEq ι] (s : State α ι) : Label α → Option (State α ι)
  | .insert row =>
    if L.valid row ∧ ∀ r ∈ s.rows, L.id r ≠ L.id row ∧ L.key r ≠ L.key row then
      some { s with rows := row :: s.rows }
    else none
  | .leave row =>
    if L.selects row = false ∧ L.valid row ∧ ∃ r ∈ s.rows, L.id r = L.id row ∧ L.key r = L.key row then
      some
        { s with
          rows := updateWhere (L.id · == L.id row) (fun _ => row) s.rows
          throughout := s.throughout.filter (L.id · != L.id row) }
    else none
  | .page => s.next.map fun cursor =>
      { s with
        next := (pageOf s.rows cursor).2.map some, listed := s.listed ++ (pageOf s.rows cursor).1 }

/-- The row is not behind the place that has been reached. -/
def passed [DecidableEq ι] (s : State α ι) (r : α) : Bool :=
  match s.next with
  | none => true
  | some none => false
  | some (some cursor) => s.rows.all fun row => L.id row != cursor || L.key row ≤ L.key r

/-- **Complete so far**: nothing twice, everything in order, and nothing left out that has been selected
all the time. -/
structure Complete [DecidableEq ι] (s : State α ι) : Prop where
  ordered : s.listed.Pairwise fun a b => L.key b < L.key a
  listed : ∀ r ∈ s.throughout, passed L s r = true → r ∈ s.listed

/-- The row that is skipped when the next page is read. -/
def skipped [DecidableEq ι] (s : State α ι) : Option α :=
  match s.next with
  | some (some cursor) => (L.startingAt s.rows (some cursor)).head?
  | _ => none

/-- The row that is skipped is the one of the cursor, or has not been selected all the time. -/
def SkipsCursor [DecidableEq ι] (s : State α ι) : Label α → Prop
  | .page => ∀ r, skipped L s = some r → r ∈ s.throughout → s.next = some (some (L.id r))
  | _ => True

instance [DecidableEq ι] [DecidableEq α] (s : State α ι) : (l : Label α) → Decidable (SkipsCursor L s l)
  | .page => inferInstanceAs (Decidable (∀ r ∈ skipped L s, r ∈ s.throughout → s.next = some (some (L.id r))))
  | .insert _ => inferInstanceAs (Decidable True)
  | .leave _ => inferInstanceAs (Decidable True)

/-- What the table and the reader keep. -/
structure Inv (s : State α ι) : Prop where
  ids : Keyed L.id s.rows
  keys : Keyed L.key s.rows
  valid : ∀ r ∈ s.rows, L.valid r = true
  throughout : ∀ r ∈ s.throughout, r ∈ s.rows ∧ L.selects r = true
  fresh : s.next = some none → s.listed = []
  place : ∀ cursor, s.next = some (some cursor) →
    ∃ row ∈ s.rows, L.id row = cursor ∧ ∀ a ∈ s.listed, L.key row ≤ L.key a
  ordered : s.listed.Pairwise fun a b => L.key b < L.key a

end Machine

variable [LinearOrder κ]

/-! ## The order -/

section Order
variable {L : Listing α ι κ} {rows : List α}

theorem mem_sorted {r : α} : r ∈ L.sorted rows ↔ r ∈ rows ∧ L.selects r = true := by
  unfold Listing.sorted
  rw [List.mem_insertionSort, List.mem_filter]

theorem pairwise_sorted (hkeys : Keyed L.key rows) :
    (L.sorted rows).Pairwise fun a b => L.key b < L.key a := by
  have : Std.Total fun a b : α => L.key b ≤ L.key a := ⟨fun a b => le_total (L.key b) (L.key a)⟩
  have : IsTrans α fun a b => L.key b ≤ L.key a := ⟨fun _ _ _ hab hbc => hbc.trans hab⟩
  have hle : (L.sorted rows).Pairwise fun a b => L.key b ≤ L.key a := List.pairwise_insertionSort _ _
  have hne : (L.sorted rows).Pairwise fun a b => L.key a ≠ L.key b := by
    refine List.pairwise_map.mp ?_
    have hperm := (List.perm_insertionSort (fun a b => L.key b ≤ L.key a) (rows.filter L.selects)).map L.key
    exact hperm.nodup_iff.mpr (List.Nodup.sublist (List.filter_sublist.map L.key) hkeys)
  exact hle.imp₂ (fun _ _ hle hne => lt_of_le_of_ne hle (Ne.symm hne)) hne

/-- In a list in descending order, the rows that are not behind the last one of the first `n` are the
first `n`. -/
theorem mem_take_of_le {items : List α} (h : items.Pairwise fun a b => L.key b < L.key a) {n : ℕ} {last r : α}
    (hlast : (items.take n).getLast? = some last) (hr : r ∈ items) (hle : L.key last ≤ L.key r) :
    r ∈ items.take n := by
  rw [← List.take_append_drop n items] at h hr
  rcases List.mem_append.mp hr with hr | hr
  · exact hr
  · have hlt := (List.pairwise_append.mp h).2.2 last (List.mem_of_getLast? hlast) r hr
    exact absurd hle hlt.not_ge

theorem last_le {items : List α} (h : items.Pairwise fun a b => L.key b < L.key a) {last r : α}
    (hlast : items.getLast? = some last) (hr : r ∈ items) : L.key last ≤ L.key r := by
  obtain ⟨init, rfl⟩ := List.getLast?_eq_some_iff.mp hlast
  rcases List.mem_append.mp hr with hr | hr
  · exact ((List.pairwise_append.mp h).2.2 r hr last List.mem_cons_self).le
  · rw [List.mem_singleton.mp hr]

end Order

/-! ## A page -/

section Page
variable [DecidableEq ι] {L : Listing α ι κ} {s : State α ι} {limit : ℕ}

theorem startingAt_of_mem {rows : List α} (hids : Keyed L.id rows) {row : α} (hrow : row ∈ rows) :
    L.startingAt rows (some (L.id row)) = (L.sorted rows).filter fun a => L.key a ≤ L.key row := by
  have hfind : rows.find? (L.id · == L.id row) = some row := by
    have hsome : (rows.find? (L.id · == L.id row)).isSome = true :=
      List.find?_isSome.mpr ⟨row, hrow, beq_self_eq_true _⟩
    obtain ⟨row', hrow'⟩ := Option.isSome_iff_exists.mp hsome
    have hid := List.find?_some hrow'
    rw [hrow', hids.eq_of_key_eq (List.mem_of_find?_eq_some hrow') hrow (beq_iff_eq.mp hid)]
  unfold Listing.startingAt
  dsimp only
  rw [hfind]

theorem passed_of_place {row : α} (hids : Keyed L.id s.rows) (hrow : row ∈ s.rows)
    (hnext : s.next = some (some (L.id row))) (r : α) : passed L s r = true ↔ L.key row ≤ L.key r := by
  unfold passed
  rw [hnext]
  simp only [List.all_eq_true, Bool.or_eq_true, bne_iff_ne, decide_eq_true_eq, ne_eq]
  constructor
  · intro h
    exact (h row hrow).resolve_left fun hne => hne rfl
  · intro h row' hrow'
    by_cases hid : L.id row' = L.id row
    · rw [hids.eq_of_key_eq hrow' hrow hid]
      exact Or.inr h
    · exact Or.inl hid

/-- What is left to read when a page is asked for: the rows behind the place reached, but for the row
that is skipped. -/
structure Rest (L : Listing α ι κ) (s : State α ι) (rest : List α) : Prop where
  subset : ∀ b ∈ rest, b ∈ L.sorted s.rows
  ordered : rest.Pairwise fun a b => L.key b < L.key a
  behind : ∀ b ∈ rest, passed L s b = false ∧ ∀ a ∈ s.listed, L.key b < L.key a
  all : ∀ r ∈ L.sorted s.rows, passed L s r = false → r ∈ rest ∨ skipped L s = some r
  skipped : ∀ r, skipped L s = some r → s.next ≠ some (some (L.id r)) →
    passed L s r = false ∧ (∀ b ∈ rest, L.key b < L.key r) ∧ ∀ a ∈ s.listed, L.key r < L.key a

/-- A page is cut from the rows behind the cursor. -/
theorem page_eq (limit : ℕ) (rows : List α) (cursor : Option ι) {rest : List α}
    (hrest : (L.startingAt rows cursor).drop (if cursor.isSome then 1 else 0) = rest) : L.page limit rows cursor =
      (rest.take limit, if limit < rest.length then (rest.take limit).getLast?.map L.id else none) := by
  have htake : (rest.take (limit + 1)).take limit = rest.take limit := by
    rw [List.take_take, min_eq_left (Nat.le_succ limit)]
  have hlt : limit < (rest.take (limit + 1)).length ↔ limit < rest.length := by
    rw [List.length_take]
    omega
  simp only [Listing.page, hrest, htake, hlt]

/-- Before the first page all rows are left. -/
theorem rest_fresh (hs : Inv L s) (hnext : s.next = some none) : Rest L s (L.sorted s.rows) := by
  refine ⟨fun _ h => h, pairwise_sorted hs.keys, fun b _ => ⟨?_, fun a ha => ?_⟩, fun r hr _ => Or.inl hr,
    fun r hr => ?_⟩
  · unfold passed
    rw [hnext]
  · rw [hs.fresh hnext] at ha
    exact absurd ha List.not_mem_nil
  · unfold Paging.skipped at hr
    rw [hnext] at hr
    cases hr

/-- Later those that are behind the first one from the place of the cursor on, which is skipped. -/
theorem rest_placed (hs : Inv L s) {row : α} (hrow : row ∈ s.rows) (hnext : s.next = some (some (L.id row)))
    (hle : ∀ a ∈ s.listed, L.key row ≤ L.key a) : Rest L s ((L.startingAt s.rows (some (L.id row))).drop 1) := by
  have hstart := startingAt_of_mem (L := L) hs.ids hrow
  have hskip : skipped L s = (L.startingAt s.rows (some (L.id row))).head? := by
    unfold Paging.skipped
    rw [hnext]
  have hfrom : (L.startingAt s.rows (some (L.id row))).Pairwise fun a b => L.key b < L.key a := by
    rw [hstart]
    exact (pairwise_sorted hs.keys).filter _
  have hmem : ∀ r, r ∈ L.startingAt s.rows (some (L.id row)) ↔ r ∈ L.sorted s.rows ∧ L.key r ≤ L.key row := by
    intro r
    rw [hstart, List.mem_filter, decide_eq_true_eq]
  have hnot : ∀ r, passed L s r = false ↔ L.key r < L.key row := by
    intro r
    rw [← not_le, ← passed_of_place hs.ids hrow hnext r, Bool.not_eq_true]
  generalize L.startingAt s.rows (some (L.id row)) = items at hskip hfrom hmem
  cases items with
  | nil =>
    refine ⟨fun _ h => absurd h List.not_mem_nil, List.Pairwise.nil, fun _ h => absurd h List.not_mem_nil,
      fun r hr hp => ?_, fun r hr => ?_⟩
    · exact absurd ((hmem r).mpr ⟨hr, ((hnot r).mp hp).le⟩) List.not_mem_nil
    · rw [hskip] at hr
      cases hr
  | cons first items =>
    obtain ⟨hfirst, hitems⟩ := List.pairwise_cons.mp hfrom
    obtain ⟨hfirst_mem, hfirst_le⟩ := (hmem first).mp List.mem_cons_self
    have hbehind : ∀ b ∈ items, L.key b < L.key row := fun b hb => (hfirst b hb).trans_le hfirst_le
    refine ⟨fun b hb => ((hmem b).mp (List.mem_cons_of_mem _ hb)).1, hitems,
      fun b hb => ⟨(hnot b).mpr (hbehind b hb), fun a ha => (hbehind b hb).trans_le (hle a ha)⟩,
      fun r hr hp => ?_, fun r hr hne => ?_⟩
    · rcases List.mem_cons.mp ((hmem r).mpr ⟨hr, ((hnot r).mp hp).le⟩) with rfl | hr
      · exact Or.inr hskip
      · exact Or.inl hr
    · obtain rfl : first = r := Option.some.inj (hskip.symm.trans hr)
      have hlt : L.key first < L.key row := by
        refine lt_of_le_of_ne hfirst_le fun heq => hne ?_
        rw [hnext, hs.keys.eq_of_key_eq (mem_sorted.mp hfirst_mem).1 hrow heq]
      exact ⟨(hnot first).mpr hlt, hfirst, fun a ha => hlt.trans_le (hle a ha)⟩

theorem exists_rest (limit : ℕ) (hs : Inv L s) {cursor : Option ι} (hnext : s.next = some cursor) :
    ∃ rest, Rest L s rest ∧ L.page limit s.rows cursor =
      (rest.take limit, if limit < rest.length then (rest.take limit).getLast?.map L.id else none) := by
  cases cursor with
  | none => exact ⟨_, rest_fresh hs hnext, page_eq limit s.rows none rfl⟩
  | some cursor =>
    obtain ⟨row, hrow, rfl, hle⟩ := hs.place cursor hnext
    exact ⟨_, rest_placed hs hrow hnext hle, page_eq limit s.rows (some (L.id row)) rfl⟩

end Page

/-! ## The steps -/

/-- `pageOf` reads the pages of the listing, for tables of valid rows and cursors that are ids of rows. -/
def Pages [DecidableEq ι] (L : Listing α ι κ) (limit : ℕ) (pageOf : List α → Option ι → List α × Option ι) :
    Prop :=
  ∀ rows cursor, (∀ r ∈ rows, L.valid r = true) → (∀ c, cursor = some c → ∃ r ∈ rows, L.id r = c) →
    pageOf rows cursor = L.page limit rows cursor

section Steps
variable [DecidableEq ι] {L : Listing α ι κ} {pageOf : List α → Option ι → List α × Option ι} {limit : ℕ}
  {s s' : State α ι}

/-- What reading a page does, with the rows that are left before it. -/
structure Reads (L : Listing α ι κ) (limit : ℕ) (s s' : State α ι) (rest : List α) : Prop where
  left : Rest L s rest
  next : s'.next = (if limit < rest.length then (rest.take limit).getLast?.map L.id else none).map some
  listed : s'.listed = s.listed ++ rest.take limit
  rows : s'.rows = s.rows
  throughout : s'.throughout = s.throughout

theorem exists_reads (hs : Inv L s) (hpages : Pages L limit pageOf)
    (h : step L pageOf s .page = some s') : ∃ rest, Reads L limit s s' rest := by
  obtain ⟨cursor, hnext, rfl⟩ := Option.map_eq_some_iff.mp h
  obtain ⟨rest, hrest, hpage⟩ := exists_rest limit hs hnext
  have hcursor : ∀ c, cursor = some c → ∃ r ∈ s.rows, L.id r = c := by
    rintro c rfl
    obtain ⟨row, hrow, hid, -⟩ := hs.place c hnext
    exact ⟨row, hrow, hid⟩
  rw [hpages s.rows cursor hs.valid hcursor, hpage]
  exact ⟨rest, hrest, rfl, rfl, rfl, rfl⟩

/-- The last row of the page, which is where the next one starts. -/
theorem Reads.place {rest : List α} (hr : Reads L limit s s' rest) {cursor : Option ι}
    (hnext : s'.next = some cursor) : limit < rest.length ∧
      ∃ last, (rest.take limit).getLast? = some last ∧ cursor = some (L.id last) := by
  rw [hr.next] at hnext
  split_ifs at hnext with hmore
  · refine ⟨hmore, ?_⟩
    obtain ⟨c, hc, rfl⟩ := Option.map_eq_some_iff.mp hnext
    obtain ⟨last, hlast, rfl⟩ := Option.map_eq_some_iff.mp hc
    exact ⟨last, hlast, rfl⟩
  · cases hnext

/-- The last row of the page is one of the table. -/
theorem Reads.last_mem {rest : List α} (hr : Reads L limit s s' rest) {last : α}
    (hlast : (rest.take limit).getLast? = some last) : last ∈ rest ∧ last ∈ s'.rows := by
  have hmem := List.mem_of_mem_take (List.mem_of_getLast? hlast)
  refine ⟨hmem, ?_⟩
  rw [hr.rows]
  exact (mem_sorted.mp (hr.left.subset last hmem)).1

theorem Reads.ordered {rest : List α} (hs : Inv L s) (hr : Reads L limit s s' rest) :
    s'.listed.Pairwise fun a b => L.key b < L.key a := by
  rw [hr.listed]
  refine List.pairwise_append.mpr ⟨hs.ordered, hr.left.ordered.sublist (List.take_sublist _ _), ?_⟩
  intro a ha b hb
  exact (hr.left.behind b (List.mem_of_mem_take hb)).2 a ha

theorem inv_page (hs : Inv L s) {rest : List α} (hr : Reads L limit s s' rest) : Inv L s' := by
  refine ⟨hr.rows ▸ hs.ids, hr.rows ▸ hs.keys, hr.rows ▸ hs.valid, ?_, fun hnext => ?_, fun cursor hnext => ?_,
    hr.ordered hs⟩
  · rw [hr.throughout, hr.rows]
    exact hs.throughout
  · obtain ⟨-, _, -, hnone⟩ := hr.place hnext
    cases hnone
  · obtain ⟨-, last, hlast, hcursor⟩ := hr.place hnext
    obtain ⟨hmem, hrow⟩ := hr.last_mem hlast
    refine ⟨last, hrow, (Option.some.inj hcursor).symm, ?_⟩
    rw [hr.listed]
    intro a ha
    rcases List.mem_append.mp ha with ha | ha
    · exact ((hr.left.behind last hmem).2 a ha).le
    · exact last_le (hr.left.ordered.sublist (List.take_sublist _ _)) hlast ha

theorem keyed_leave {β : Type*} {f : α → β} (hs : Inv L s) {row r : α} (hr : r ∈ s.rows)
    (hid : L.id r = L.id row)
    (hf : f r = f row) : (updateWhere (L.id · == L.id row) (fun _ => row) s.rows).map f = s.rows.map f := by
  refine hs.ids.map_updateWhere hr (fun r' hr' => ?_) hf.symm
  rw [beq_iff_eq.mp hr', hid]

/-- **Every step** keeps the invariant. -/
theorem Inv.step {l : Label α} (hs : Inv L s) (hpages : Pages L limit pageOf)
    (h : Paging.step L pageOf s l = some s') : Inv L s' := by
  cases l with
  | insert row =>
    simp only [Paging.step] at h
    split_ifs at h with hrow
    cases h
    obtain ⟨hvalid, hfree⟩ := hrow
    refine ⟨hs.ids.cons fun r hr => (hfree r hr).1, hs.keys.cons fun r hr => (hfree r hr).2,
      List.forall_mem_cons.mpr ⟨hvalid, hs.valid⟩, fun r hr => ?_, hs.fresh, fun cursor hnext => ?_, hs.ordered⟩
    · exact ⟨List.mem_cons_of_mem _ (hs.throughout r hr).1, (hs.throughout r hr).2⟩
    · obtain ⟨place, hplace, hrest⟩ := hs.place cursor hnext
      exact ⟨place, List.mem_cons_of_mem _ hplace, hrest⟩
  | leave row =>
    simp only [Paging.step] at h
    split_ifs at h with hrow
    cases h
    obtain ⟨hselects, hvalid, r, hr, hid, hkey⟩ := hrow
    have hmem : ∀ r', r' ∈ s.rows → L.id r' ≠ L.id row →
        r' ∈ updateWhere (L.id · == L.id row) (fun _ => row) s.rows := by
      intro r' hr' hne
      exact mem_updateWhere.mpr (Or.inr ⟨hr', beq_eq_false_iff_ne.mpr hne⟩)
    refine ⟨?_, ?_, fun r' hr' => ?_, fun r' hr' => ?_, hs.fresh, fun cursor hnext => ?_, hs.ordered⟩
    · rw [Keyed, keyed_leave hs hr hid hid]
      exact hs.ids
    · rw [Keyed, keyed_leave hs hr hid hkey]
      exact hs.keys
    · rcases mem_updateWhere.mp hr' with ⟨-, -, -, rfl⟩ | ⟨hr', -⟩
      · exact hvalid
      · exact hs.valid r' hr'
    · obtain ⟨hr', hne⟩ := List.mem_filter.mp hr'
      exact ⟨hmem r' (hs.throughout r' hr').1 (bne_iff_ne.mp hne), (hs.throughout r' hr').2⟩
    · obtain ⟨place, hplace, hcursor, hle⟩ := hs.place cursor hnext
      by_cases hid' : L.id place = L.id row
      · refine ⟨row, mem_updateWhere.mpr (Or.inl ⟨place, hplace, beq_iff_eq.mpr hid', rfl⟩),
          hid' ▸ hcursor, fun a ha => ?_⟩
        rw [← hkey, ← hs.ids.eq_of_key_eq hplace hr (hid'.trans hid.symm)]
        exact hle a ha
      · exact ⟨place, hmem place hplace hid', hcursor, hle⟩
  | page =>
    obtain ⟨rest, hr⟩ := exists_reads hs hpages h
    exact inv_page hs hr

/-- What all that was left is behind is passed now. -/
theorem Reads.passed_of_behind (hs : Inv L s) {rest : List α} (hr : Reads L limit s s' rest) {r : α}
    (hlt : ∀ b ∈ rest, L.key b < L.key r) : passed L s' r = true := by
  cases hnext : s'.next with
  | none =>
    unfold passed
    rw [hnext]
  | some cursor =>
    obtain ⟨-, last, hlast, rfl⟩ := hr.place hnext
    obtain ⟨hmem, hrow⟩ := hr.last_mem hlast
    exact (passed_of_place (inv_page hs hr).ids hrow hnext r).mpr (hlt last hmem).le

/-- Without a next page, all that was left is in this one. -/
theorem Reads.take_eq_of_last {rest : List α} (hr : Reads L limit s s' rest) (hlimit : 1 ≤ limit)
    (hnext : s'.next = none) : rest.take limit = rest := by
  refine List.take_of_length_le ?_
  by_contra hlt
  have hlast := hr.next
  rw [hnext, if_pos (not_le.mp hlt)] at hlast
  have hne : rest.take limit ≠ [] := by
    rw [Ne, List.take_eq_nil_iff, not_or]
    refine ⟨by omega, ?_⟩
    rintro rfl
    exact hlt (Nat.zero_le limit)
  rw [List.getLast?_eq_some_getLast hne] at hlast
  cases hlast

/-- What was left and is passed now is in the page. -/
theorem Reads.mem_take_of_passed (hs : Inv L s) {rest : List α} (hr : Reads L limit s s' rest)
    (hlimit : 1 ≤ limit) {r : α} (hrest : r ∈ rest) (hp : passed L s' r = true) : r ∈ rest.take limit := by
  cases hnext : s'.next with
  | none =>
    rw [hr.take_eq_of_last hlimit hnext]
    exact hrest
  | some cursor =>
    obtain ⟨-, last, hlast, rfl⟩ := hr.place hnext
    obtain ⟨-, hrow⟩ := hr.last_mem hlast
    have hle := (passed_of_place (inv_page hs hr).ids hrow hnext r).mp hp
    exact mem_take_of_le hr.left.ordered hlast hrest hle

/-- **Reading a page** stays complete exactly when the row that is skipped is the one of the cursor or has
not been selected all the time. -/
theorem complete_page_iff (hs : Inv L s) (hc : Complete L s) {rest : List α} (hr : Reads L limit s s' rest)
    (hlimit : 1 ≤ limit) : Complete L s' ↔ SkipsCursor L s .page := by
  constructor
  · intro h r hskip hthrough
    by_contra hne
    obtain ⟨-, hrest, hlisted⟩ := hr.left.skipped r hskip hne
    have hmem := h.listed r (hr.throughout ▸ hthrough) (hr.passed_of_behind hs hrest)
    rw [hr.listed] at hmem
    rcases List.mem_append.mp hmem with hmem | hmem
    · exact lt_irrefl _ (hlisted r hmem)
    · exact lt_irrefl _ (hrest r (List.mem_of_mem_take hmem))
  · intro hskips
    refine ⟨hr.ordered hs, fun r hthrough hp => ?_⟩
    rw [hr.throughout] at hthrough
    rw [hr.listed]
    by_cases hbefore : passed L s r = true
    · exact List.mem_append_left _ (hc.listed r hthrough hbefore)
    obtain ⟨hrow, hselects⟩ := hs.throughout r hthrough
    rcases hr.left.all r (mem_sorted.mpr ⟨hrow, hselects⟩) ((Bool.not_eq_true _).mp hbefore) with hrest | hskip
    · exact List.mem_append_right _ (hr.mem_take_of_passed hs hlimit hrest hp)
    · have hnext := hskips r hskip hthrough
      have hp' := (passed_of_place hs.ids hrow hnext r).mpr le_rfl
      exact absurd hp' hbefore

/-- The place that has been reached stays where it is while the rows keep their ids and keys. -/
theorem passed_congr (hs : Inv L s) (hs' : Inv L s') (hnext : s'.next = s.next)
    (hrows : ∀ row ∈ s.rows, ∃ row' ∈ s'.rows, L.id row' = L.id row ∧ L.key row' = L.key row) (r : α) :
    passed L s' r = passed L s r := by
  cases hcursor : s.next with
  | none =>
    unfold passed
    rw [hnext, hcursor]
  | some cursor =>
    cases cursor with
    | none =>
      unfold passed
      rw [hnext, hcursor]
    | some cursor =>
      obtain ⟨row, hrow, rfl, -⟩ := hs.place cursor hcursor
      obtain ⟨row', hrow', hid, hkey⟩ := hrows row hrow
      rw [Bool.eq_iff_iff, passed_of_place hs.ids hrow hcursor r,
        passed_of_place hs'.ids hrow' (by rw [hnext, hcursor, hid]) r, hkey]

/-- An insertion and a row that leaves, as the reader sees them. -/
structure Writes (L : Listing α ι κ) (s s' : State α ι) : Prop where
  next : s'.next = s.next
  listed : s'.listed = s.listed
  rows : ∀ row ∈ s.rows, ∃ row' ∈ s'.rows, L.id row' = L.id row ∧ L.key row' = L.key row
  throughout : ∀ r ∈ s'.throughout, r ∈ s.throughout

theorem writes_insert {row : α} (h : step L pageOf s (.insert row) = some s') : Writes L s s' := by
  simp only [step] at h
  split_ifs at h
  cases h
  exact ⟨rfl, rfl, fun r hr => ⟨r, List.mem_cons_of_mem _ hr, rfl, rfl⟩, fun _ h => h⟩

theorem writes_leave (hs : Inv L s) {row : α} (h : step L pageOf s (.leave row) = some s') :
    Writes L s s' := by
  simp only [step] at h
  split_ifs at h with hrow
  cases h
  obtain ⟨-, -, r, hr, hid, hkey⟩ := hrow
  refine ⟨rfl, rfl, fun r' hr' => ?_, fun _ h => (List.mem_filter.mp h).1⟩
  by_cases hid' : L.id r' = L.id row
  · refine ⟨row, mem_updateWhere.mpr (Or.inl ⟨r', hr', beq_iff_eq.mpr hid', rfl⟩), hid'.symm, ?_⟩
    rw [hs.ids.eq_of_key_eq hr' hr (hid'.trans hid.symm)]
    exact hkey.symm
  · exact ⟨r', mem_updateWhere.mpr (Or.inr ⟨hr', beq_eq_false_iff_ne.mpr hid'⟩), rfl, rfl⟩

theorem Writes.complete (hw : Writes L s s') (hs : Inv L s) (hs' : Inv L s') (hc : Complete L s) :
    Complete L s' := by
  refine ⟨hw.listed ▸ hc.ordered, fun r hr hp => ?_⟩
  rw [hw.listed]
  rw [passed_congr hs hs' hw.next hw.rows] at hp
  exact hc.listed r (hw.throughout r hr) hp

/-- **One step** stays complete exactly when it skips no row but the one of the cursor. -/
theorem complete_step_iff {l : Label α} (hs : Inv L s) (hc : Complete L s) (hpages : Pages L limit pageOf)
    (hlimit : 1 ≤ limit) (h : step L pageOf s l = some s') : Complete L s' ↔ SkipsCursor L s l := by
  have hs' := hs.step hpages h
  cases l with
  | insert row => exact iff_of_true ((writes_insert h).complete hs hs' hc) trivial
  | leave row => exact iff_of_true ((writes_leave hs h).complete hs hs' hc) trivial
  | page =>
    obtain ⟨rest, hr⟩ := exists_reads hs hpages h
    exact complete_page_iff hs hc hr hlimit

end Steps

/-! ## Runs -/

section Runs
variable [DecidableEq ι] {L : Listing α ι κ} {pageOf : List α → Option ι → List α × Option ι} {limit : ℕ}
  {rows : List α} {s s' : State α ι} {ls : List (Label α)}

/-- A table that a reading starts from. -/
structure Start (L : Listing α ι κ) (rows : List α) : Prop where
  ids : Keyed L.id rows
  keys : Keyed L.key rows
  valid : ∀ r ∈ rows, L.valid r = true

omit [DecidableEq ι] in
theorem Start.inv (h : Start L rows) : Inv L (begin L rows) :=
  ⟨h.ids, h.keys, h.valid, fun _ hr => mem_sorted.mp hr, fun _ => rfl, nofun, List.Pairwise.nil⟩

/-- **The reading is complete in every state of a run** exactly when no step of the run skips a row that
has been selected all the time, unless it is the row of the cursor. -/
theorem complete_iff (h : Start L rows) (hpages : Pages L limit pageOf) (hlimit : 1 ≤ limit)
    (hr : run (step L pageOf) (begin L rows) ls = some s') :
    AllStates (step L pageOf) (Complete L) (begin L rows) ls ↔
      AllSteps (step L pageOf) (SkipsCursor L) (begin L rows) ls :=
  allStates_iff_allSteps (C := fun _ _ => True) (I := Inv L) (fun _ _ _ hs _ _ _ h => hs.step hpages h)
    (fun _ _ _ hs hc _ h => complete_step_iff hs hc hpages hlimit h) h.inv
    ⟨List.Pairwise.nil, nofun⟩ (allSteps_of_forall (fun _ _ _ => trivial) _) hr

/-! ### The end -/

omit [LinearOrder κ] [DecidableEq ι] in
theorem countP_lt_countP {p q : α → Bool} {l : List α} (h : ∀ a ∈ l, p a = true → q a = true) {a : α}
    (ha : a ∈ l) (hp : p a = false) (hq : q a = true) : l.countP p + 1 ≤ l.countP q := by
  induction l with
  | nil => exact absurd ha List.not_mem_nil
  | cons b l ih =>
    have hl : ∀ a ∈ l, p a = true → q a = true := fun a ha => h a (List.mem_cons_of_mem _ ha)
    rw [List.countP_cons, List.countP_cons]
    rcases List.mem_cons.mp ha with rfl | ha
    · have hle := List.countP_mono_left hl
      rw [if_neg (by rw [hp]; exact Bool.false_ne_true), if_pos hq]
      omega
    · have hlt := ih hl ha
      by_cases hb : p b = true
      · rw [if_pos hb, if_pos (h b List.mem_cons_self hb)]
        omega
      · rw [if_neg hb]
        omega

/-- The row is still to be read. -/
def toRead (L : Listing α ι κ) (s : State α ι) (r : α) : Bool := L.selects r && !passed L s r

/-- What is still to be read, and one more for the last page. -/
def work (L : Listing α ι κ) (s : State α ι) : ℕ :=
  if s.next.isSome then 1 + s.rows.countP (toRead L s) else 0

/-- What has been passed before a page is read is passed afterwards. -/
theorem toRead_of_toRead (hs : Inv L s) {rest : List α} (hr : Reads L limit s s' rest) (hnext : s.next.isSome = true)
    {r : α} (hread : toRead L s' r = true) : toRead L s r = true := by
  unfold toRead at hread ⊢
  rw [Bool.and_eq_true, Bool.not_eq_true'] at hread ⊢
  refine ⟨hread.1, ?_⟩
  by_contra hbefore
  -- all that was left is behind a row that had been passed
  have hbehind : ∀ b ∈ rest, L.key b < L.key r := by
    intro b hb
    by_contra hle
    have hb' := (hr.left.behind b hb).1
    obtain ⟨cursor, hcursor⟩ := Option.isSome_iff_exists.mp hnext
    cases cursor with
    | none =>
      unfold passed at hbefore
      rw [hcursor] at hbefore
      exact hbefore rfl
    | some cursor =>
      obtain ⟨place, hplace, rfl, -⟩ := hs.place cursor hcursor
      have hplaced := passed_of_place hs.ids hplace hcursor
      have hle' := (hplaced r).mp ((Bool.not_eq_false _).mp hbefore)
      rw [(hplaced b).mpr (hle'.trans (not_lt.mp hle))] at hb'
      cases hb'
  rw [hr.passed_of_behind hs hbehind] at hread
  cases hread.2

theorem work_page (hs : Inv L s) {rest : List α} (hr : Reads L limit s s' rest)
    (hnext : s.next.isSome = true) : work L s' + 1 ≤ work L s := by
  unfold work
  rw [if_pos hnext]
  cases hnext' : s'.next with
  | none =>
    rw [if_neg (by simp)]
    omega
  | some cursor =>
    rw [if_pos Option.isSome_some, hr.rows]
    obtain ⟨-, last, hlast, rfl⟩ := hr.place hnext'
    obtain ⟨hmem, hrow'⟩ := hr.last_mem hlast
    obtain ⟨hrow, hselects⟩ := mem_sorted.mp (hr.left.subset last hmem)
    have hpassed := passed_of_place (inv_page hs hr).ids hrow' hnext'
    -- the last row of the page is read with it
    have hlast' : toRead L s' last = false := by
      unfold toRead
      rw [(hpassed last).mpr le_rfl, Bool.not_true, Bool.and_false]
    have hlast : toRead L s last = true := by
      unfold toRead
      rw [hselects, (hr.left.behind last hmem).1]
      rfl
    have hmono : ∀ r ∈ s.rows, toRead L s' r = true → toRead L s r = true :=
      fun r _ => toRead_of_toRead hs hr hnext
    have hlt := countP_lt_countP hmono hrow hlast' hlast
    omega

theorem work_leave (hs : Inv L s) (hs' : Inv L s') {row : α}
    (h : step L pageOf s (.leave row) = some s') : work L s' ≤ work L s := by
  have hw := writes_leave hs h
  have hpassed := passed_congr hs hs' hw.next hw.rows
  simp only [step] at h
  split_ifs at h with hrow
  cases h
  unfold work
  split_ifs with hnext
  · refine Nat.add_le_add_left ?_ 1
    rw [countP_updateWhere]
    refine List.countP_mono_left fun r _ hread => ?_
    unfold toRead at hread ⊢
    split_ifs at hread with hid
    · rw [hrow.1] at hread
      cases hread
    · rw [hpassed r] at hread
      exact hread
  · exact le_rfl

theorem work_le (hpages : Pages L limit pageOf) (hs : Inv L s) (hins : ∀ l ∈ ls, l.isInsert = false)
    (hr : run (step L pageOf) s ls = some s') : work L s' + ls.countP Label.isPage ≤ work L s := by
  induction ls generalizing s with
  | nil =>
    cases hr
    exact le_rfl
  | cons l ls ih =>
    obtain ⟨s₁, h₁, hr₁⟩ := run_cons_eq_some.mp hr
    have hs₁ := hs.step hpages h₁
    have hle := ih hs₁ (fun l hl => hins l (List.mem_cons_of_mem _ hl)) hr₁
    cases l with
    | insert row => exact absurd (hins _ List.mem_cons_self) Bool.noConfusion
    | leave row =>
      have hwork := work_leave hs hs₁ h₁
      rw [List.countP_cons_of_neg (by simp [Label.isPage])]
      omega
    | page =>
      obtain ⟨rest, hread⟩ := exists_reads hs hpages h₁
      obtain ⟨cursor, hcursor, -⟩ := Option.map_eq_some_iff.mp h₁
      have hwork := work_page hs hread (Option.isSome_iff_exists.mpr ⟨cursor, hcursor⟩)
      rw [List.countP_cons_of_pos rfl]
      omega

/-- **The reading ends**: without insertions there are at most as many pages as rows, and one more. -/
theorem countP_page_le (h : Start L rows) (hpages : Pages L limit pageOf)
    (hins : ∀ l ∈ ls, l.isInsert = false) (hr : run (step L pageOf) (begin L rows) ls = some s') :
    ls.countP Label.isPage ≤ rows.length + 1 := by
  have hle := work_le hpages h.inv hins hr
  have hbegin : work L (begin L rows) ≤ 1 + rows.length := by
    show 1 + rows.countP _ ≤ 1 + rows.length
    exact Nat.add_le_add_left List.countP_le_length 1
  omega

end Runs

end Neltrik.Lib.Paging
