import Neltrik.Prisma.Scope
import Neltrik.Lib.SamePage

/-! # Pages of a `findMany`

The helpers `withPaginationArgs` and `paginate`, and what Prisma makes of the arguments of the first:
the cursor stands for the place of its row in the order, whether or not the `where` selects the row, and
`skip` counts the selected rows from there on. `paginate_findMany` puts the three together. -/

namespace Neltrik.Prisma

open Neltrik.Lib Neltrik.Lib.Paging

/-- `take`, and the cursor with the row of it to skip. -/
structure PaginationArgs where
  take : ℕ
  skip : Option ℕ
  cursor : Option String

/-- One row more than the page, to see whether there is another one. -/
def withPaginationArgs (cursor : Option String) (limit : ℕ) : PaginationArgs :=
  match truthy cursor with
  | some cursor => { take := limit + 1, skip := some 1, cursor := some cursor }
  | none => { take := limit + 1, skip := none, cursor := none }

/-- A page, and the cursor of the next one. -/
structure PaginateOutput (α : Type) where
  items : List α
  nextCursor : Option String
  hasMore : Bool

/-- The page without the row too many, whose predecessor is the cursor. -/
def paginate {α : Type} (items : List α) (limit : ℕ) (getId : α → String) : PaginateOutput α :=
  let hasMore : Bool := limit < items.length
  let pageItems := if hasMore then items.take limit else items
  let nextCursor := if hasMore then pageItems.getLast?.map getId else none
  { items := pageItems, nextCursor, hasMore }

theorem paginate_items {α : Type} (items : List α) (limit : ℕ) (getId : α → String) :
    (paginate items limit getId).items = items.take limit := by
  unfold paginate
  dsimp only
  by_cases hmore : limit < items.length
  · rw [if_pos (decide_eq_true hmore)]
  · rw [if_neg (by rw [decide_eq_true_eq]; exact hmore), List.take_of_length_le (not_lt.mp hmore)]

section
variable {α κ : Type} [LinearOrder κ]

/-- `findMany` with an `orderBy`. -/
def findMany (L : Listing α String κ) (rows : List α) (args : PaginationArgs) : List α :=
  ((L.startingAt rows args.cursor).drop (args.skip.getD 0)).take args.take

theorem findMany_withPaginationArgs (L : Listing α String κ) (rows : List α) (cursor : Option String)
    (limit : ℕ) : findMany L rows (withPaginationArgs cursor limit) =
      ((L.startingAt rows (truthy cursor)).drop (if (truthy cursor).isSome then 1 else 0)).take (limit + 1) := by
  unfold findMany withPaginationArgs
  rcases truthy cursor with _ | c <;> rfl

/-- **One page**: the look-ahead, the cursor and the skip. -/
theorem paginate_findMany (L : Listing α String κ) (rows : List α) (cursor : Option String) (limit : ℕ) :
    ((paginate (findMany L rows (withPaginationArgs cursor limit)) limit L.id).items,
      (paginate (findMany L rows (withPaginationArgs cursor limit)) limit L.id).nextCursor) =
      L.page limit rows (truthy cursor) := by
  unfold Listing.page
  rw [findMany_withPaginationArgs]
  generalize ((L.startingAt rows (truthy cursor)).drop _).take (limit + 1) = items
  refine Prod.ext (paginate_items items limit L.id) ?_
  show (if decide (limit < items.length) = true then (paginate items limit L.id).items.getLast?.map L.id
    else none) = _
  rw [paginate_items]
  simp only [decide_eq_true_eq]

/-- **The same page of two tables** with the same selected rows. -/
theorem paginate_findMany_eq_iff {L : Listing α String κ} {rows rows' : List α}
    (hkeys : Table.Keyed L.key rows) (hkeys' : Table.Keyed L.key rows')
    (hsame : ∀ r, L.selects r = true → (r ∈ rows ↔ r ∈ rows')) (cursor : Option String) {limit : ℕ}
    (hlimit : 1 ≤ limit) :
    paginate (findMany L rows (withPaginationArgs cursor limit)) limit L.id =
        paginate (findMany L rows' (withPaginationArgs cursor limit)) limit L.id ↔
      ∀ c, truthy cursor = some c → L.remaining rows c = L.remaining rows' c ∨
        (L.remaining rows c ≤ 1 ∧ L.remaining rows' c ≤ 1) := by
  rw [findMany_withPaginationArgs, findMany_withPaginationArgs]
  rcases hcursor : truthy cursor with _ | c
  · have hstart : L.startingAt rows none = L.startingAt rows' none := sorted_eq hkeys hkeys' hsame
    rw [hstart]
    exact iff_of_true rfl nofun
  · have hwindow := fun n => window_eq_iff hkeys hkeys' hsame c (n := n)
    simp only [Option.isSome_some, if_true, Option.some.injEq, forall_eq']
    constructor
    · intro h
      have hitems := congrArg PaginateOutput.items h
      rw [paginate_items, paginate_items, List.take_take, List.take_take, min_eq_left (by omega)] at hitems
      exact (hwindow limit hlimit).mp hitems
    · intro h
      rw [(hwindow (limit + 1) (by omega)).mpr h]

end

end Neltrik.Prisma
