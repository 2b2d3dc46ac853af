import Neltrik.FileStorage.Persistence
import Neltrik.Prisma.Pagination
import Mathlib.Data.Prod.Lex
import Mathlib.Data.String.Basic

/-! # Listing files page by page

`ListFiles` with the filter of `findMany`, and a client that follows `nextCursor` while files come in and
are deleted. `pages_complete_iff`: the client gets every file that has matched all the time, once and in
order, exactly when no page skips such a file in the place of the one the cursor names. -/

namespace Neltrik.FileStorage.Listing

open Neltrik.Lib Neltrik.Lib.Machine Neltrik.Lib.Paging Neltrik.Prisma
open Neltrik.FileStorage.Domain Neltrik.FileStorage.Persistence

/-! ## The use case -/

/-- The filters, each if it is given, and the page. -/
structure ListFilesInput where
  tenantId : Option String
  ownerId : Option String
  resourceType : Option String
  resourceId : Option String
  purpose : Option FilePurpose
  status : Option FileStatus
  cursor : Option String
  limit : ℕ

namespace PrismaFileRepository

/-- The `where` of `findMany`. The tenant of the client takes the place of the one that is asked for. -/
def selects (scope : Option String) (params : ListFilesInput) (f : File) : Bool :=
  (scope.or (truthy params.tenantId)).all (· == f.tenantId) &&
  (truthy params.ownerId).all (· == f.ownerId) &&
  (truthy params.resourceType).all (· == f.resourceType) &&
  (truthy params.resourceId).all (· == f.resourceId) &&
  params.purpose.all (· == f.purpose) &&
  match params.status with
  | some status => if status ≠ .deleted then f.status == status else f.status != .deleted
  | none => f.status != .deleted

/-- Ordered by `createdAt` and `id`, both descending. Ids are generated, never empty. -/
def listing (scope : Option String) (params : ListFilesInput) : Listing File String (ℕ ×ₗ String) where
  id f := f.id
  key f := toLex (f.createdAt, f.id)
  selects := selects scope params
  valid f := f.id != ""

/-- The rows of the filters and the scope, one page and one row more. -/
def findMany (scope : Option String) (files : Files) (params : ListFilesInput) : List File :=
  Prisma.findMany (listing scope params) files (withPaginationArgs params.cursor params.limit)

end PrismaFileRepository

/-- `ListFilesUseCase.execute`. -/
def ListFiles.execute (scope : Option String) (files : Files) (input : ListFilesInput) : PaginateOutput File :=
  paginate (PrismaFileRepository.findMany scope files input) input.limit (·.id)

/-- A deleted file is in no list. -/
theorem selects_of_deleted {scope : Option String} {params : ListFilesInput} {f : File}
    (h : f.status = .deleted) : PrismaFileRepository.selects scope params f = false := by
  unfold PrismaFileRepository.selects
  rw [h]
  cases params.status with
  | none => exact Bool.and_false _
  | some status =>
    cases status <;> exact Bool.and_false _

/-! ## A client that follows the cursors -/

section
variable (scope : Option String) (input : ListFilesInput)

/-- The page the cursor asks for. -/
def pageOf (files : List File) (cursor : Option String) : List File × Option String :=
  ((ListFiles.execute scope files { input with cursor }).items,
    (ListFiles.execute scope files { input with cursor }).nextCursor)

/-- The listing of an input. -/
abbrev listing : Listing File String (ℕ ×ₗ String) := PrismaFileRepository.listing scope input

/-- Files come in, files leave the filter, and pages are read. -/
abbrev step : State File String → Label File → Option (State File String) :=
  Paging.step (listing scope input) (pageOf scope input)

variable {scope input}

theorem pages : Pages (listing scope input) input.limit (pageOf scope input) := by
  intro rows cursor hvalid hcursor
  have htruthy : truthy cursor = cursor := by
    cases cursor with
    | none => rfl
    | some c =>
      obtain ⟨r, hr, rfl⟩ := hcursor c rfl
      exact Option.filter_eq_some_iff.mpr ⟨rfl, hvalid r hr⟩
  have hpage := paginate_findMany (listing scope input) rows cursor input.limit
  rw [htruthy] at hpage
  exact hpage

theorem start_of_ids {files : List File} (hids : Table.Keyed (·.id) files) (hne : ∀ f ∈ files, f.id ≠ "") :
    Start (listing scope input) files := by
  refine ⟨hids, ?_, fun f hf => bne_iff_ne.mpr (hne f hf)⟩
  have hmap : ((files.map (listing scope input).key).map fun k => (ofLex k).2).Nodup := by
    rw [List.map_map]
    exact hids
  exact List.Nodup.of_map _ hmap

/-- A file that is deleted leaves the filter, whatever the filter is. -/
theorem step_leave_deleted {s : State File String} {f f' : File} (hf : f ∈ s.rows) (hid : f'.id = f.id)
    (hne : f.id ≠ "") (hcreated : f'.createdAt = f.createdAt) (hdeleted : f'.status = .deleted) :
    ∃ s', step scope input s (.leave f') = some s' := by
  refine ⟨_, if_pos ⟨selects_of_deleted hdeleted, bne_iff_ne.mpr (hid ▸ hne), f, hf, hid.symm, ?_⟩⟩
  show toLex (f.createdAt, f.id) = toLex (f'.createdAt, f'.id)
  rw [hid, hcreated]

/-- **The pages of a list are complete** in every state of a run, exactly when no page skips a file that
has matched all the time and is not the one of the cursor. Without new files there are at most as many
pages as files, and one more. -/
theorem pages_complete_iff {files : List File} (hids : Table.Keyed (·.id) files) (hne : ∀ f ∈ files, f.id ≠ "")
    (hlimit : 1 ≤ input.limit) {ls : List (Label File)} {s' : State File String}
    (hr : run (step scope input) (begin (listing scope input) files) ls = some s') :
    (AllStates (step scope input) (Complete (listing scope input)) (begin (listing scope input) files) ls ↔
      AllSteps (step scope input) (SkipsCursor (listing scope input))
        (begin (listing scope input) files) ls) ∧
    ((∀ l ∈ ls, l.isInsert = false) → ls.countP Label.isPage ≤ files.length + 1) := by
  have hstart : Start (listing scope input) files := start_of_ids hids hne
  exact ⟨complete_iff hstart pages hlimit hr, fun hins => countP_page_le hstart pages hins hr⟩

end

/-! ### Three files, one on each page -/

section Example

/-- A version. -/
def upload : FileVersion where
  version := 1
  name := "cv.pdf"
  extension := "pdf"
  mimeType := "application/pdf"
  storageKey := "t/cv.pdf"
  size := 10
  checksum := "c"
  scans := []
  createdAt := 0
  valid := by decide

/-- A file with that version. -/
def file (id : String) (createdAt : ℕ) (status : FileStatus) : File where
  id := id
  tenantId := "t"
  ownerId := "o"
  name := upload.name
  extension := upload.extension
  mimeType := upload.mimeType
  size := upload.size
  purpose := .document
  status := status
  resourceType := "user"
  resourceId := id
  versions := [upload]
  version := 0
  createdAt := createdAt
  updatedAt := createdAt
  deletedAt := none
  valid := ⟨upload.valid.2.1, upload.valid.2.2.1, upload.valid.2.2.2.1, upload.size_pos, List.cons_ne_nil _ _⟩

/-- Three files. -/
def files : List File := [file "a" 1 .ready, file "b" 2 .ready, file "c" 3 .ready]

/-- One ready file a page. -/
def onePerPage : ListFilesInput := ⟨some "t", none, none, none, none, some .ready, none, 1⟩

/-- A run of requests on the three files. -/
def follow (ls : List (Label File)) : Option (State File String) :=
  run (step (some "t") onePerPage) (begin (listing (some "t") onePerPage) files) ls

/-- A file comes in and one that is not the cursor is deleted between the pages. -/
def quietRun : List (Label File) := [.page, .insert (file "d" 4 .ready), .leave (file "a" 1 .deleted), .page]

theorem pages_complete_iff_quietRun :
    (follow quietRun).map (fun s => (s.listed.map (·.id), s.next)) = some (["c", "b"], none) ∧
    AllStates (step (some "t") onePerPage) (Complete (listing (some "t") onePerPage))
      (begin (listing (some "t") onePerPage) files) quietRun := by
  refine ⟨by decide +kernel, ?_⟩
  have hrun : (follow quietRun).isSome = true := by decide +kernel
  obtain ⟨s', hs'⟩ := Option.isSome_iff_exists.mp hrun
  refine (pages_complete_iff (by decide) (by decide) (by decide) hs').1.mpr ?_
  exact allSteps_of_checkSteps (g := fun s l => decide (SkipsCursor (listing (some "t") onePerPage) s l))
    (fun _ _ h => of_decide_eq_true h) (by decide +kernel)

/-- The file of the cursor is deleted between the pages. -/
def deletedCursorRun : List (Label File) := [.page, .leave (file "c" 3 .deleted), .page]

/-- The file `b` is in no page, though nothing has happened to it. -/
theorem page_skips_file :
    (follow deletedCursorRun).map (fun s => (s.listed.map (·.id), s.next, s.throughout.map (·.id))) =
      some (["c", "a"], none, ["b", "a"]) ∧
    ¬ AllStates (step (some "t") onePerPage) (Complete (listing (some "t") onePerPage))
      (begin (listing (some "t") onePerPage) files) deletedCursorRun := by
  refine ⟨by decide +kernel, fun hall => ?_⟩
  have hlost : (follow deletedCursorRun).any (fun s => s.throughout.any fun r =>
      passed (listing (some "t") onePerPage) s r && !s.listed.contains r) = true := by decide +kernel
  obtain ⟨s, hs, hany⟩ := (Option.any_eq_true _ _).mp hlost
  obtain ⟨r, hr, hnot⟩ := List.any_eq_true.mp hany
  rw [Bool.and_eq_true, Bool.not_eq_true'] at hnot
  have hlisted := (hall.last hs).listed r hr hnot.1
  rw [← List.contains_iff_mem, hnot.2] at hlisted
  cases hlisted

end Example

end Neltrik.FileStorage.Listing
