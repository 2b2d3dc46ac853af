import Neltrik.FileStorage.Persistence

/-! # `FileValidationService`

What a binary must meet to be uploaded for a purpose: an allowed MIME type, an extension of that
type, the magic bytes of that type, a size within the limit of the purpose. The detector of magic
bytes and the other libraries the use cases call are the fields of `Ports`. -/

namespace Neltrik.FileStorage.Validation

open Neltrik.FileStorage.Domain Neltrik.FileStorage.Persistence

/-- The libraries behind the ports: `MagicBytesDetector.detect`, `ChecksumGenerator.generate` and
`FileStoragePort.getSignedUrl`. -/
structure Ports where
  detect : Bytes → Option String
  generate : Bytes → String
  getSignedUrl : String → ℕ → String

/-- What a purpose lets through. -/
structure FilePurposeDefinition where
  allowedMimeTypes : List String
  maxSizeBytes : ℕ
  deriving DecidableEq, Repr

/-- `FILE_PURPOSE_DEFINITIONS`. -/
def filePurposeDefinitions : FilePurpose → FilePurposeDefinition
  | .cv =>
    { allowedMimeTypes :=
        ["application/pdf",
          "application/vnd.openxmlformats-officedocument.wordprocessingml.document"],
      maxSizeBytes := 10 * 1024 * 1024 }
  | .avatar =>
    { allowedMimeTypes := ["image/jpeg", "image/png", "image/webp"],
      maxSizeBytes := 2 * 1024 * 1024 }
  | .document =>
    { allowedMimeTypes :=
        ["application/pdf",
          "application/vnd.openxmlformats-officedocument.wordprocessingml.document",
          "image/jpeg", "image/png"],
      maxSizeBytes := 25 * 1024 * 1024 }

/-- The extensions of a type. -/
def mimeTypeToExtensions (mimeType : String) : List String :=
  if mimeType = "application/pdf" then ["pdf"]
  else if mimeType = "application/vnd.openxmlformats-officedocument.wordprocessingml.document" then
    ["docx"]
  else if mimeType = "image/jpeg" then ["jpg", "jpeg"]
  else if mimeType = "image/png" then ["png"]
  else if mimeType = "image/webp" then ["webp"]
  else []

/-- `extension.toLowerCase().replace(/^\./, "")`. The letters of ASCII are enough: no other character
is lowered to a letter of an expected extension. -/
def normalizedExtension (extension : String) : List Char :=
  match extension.toList.map Char.toLower with
  | '.' :: rest => rest
  | chars => chars

/-- The extension is one of the type. -/
def isExtensionCoherent (extension mimeType : String) : Bool :=
  (mimeTypeToExtensions mimeType).any fun e => e.toList == normalizedExtension extension

/-- `FileValidationInput`. -/
structure FileValidationInput where
  purpose : FilePurpose
  mimeType : String
  extension : String
  size : ℕ
  buffer : Bytes

/-- `FileValidationService.validate`; a purpose outside the enumeration has no value. -/
def validate (ports : Ports) (input : FileValidationInput) : Except FileError Unit :=
  let definition := filePurposeDefinitions input.purpose
  if input.mimeType ∉ definition.allowedMimeTypes then .error .invalidMimeType
  else if isExtensionCoherent input.extension input.mimeType = false then
    .error .invalidFileExtension
  else if ports.detect input.buffer ≠ some input.mimeType then .error .invalidFileMagicBytes
  else if input.size = 0 ∨ definition.maxSizeBytes < input.size then .error .invalidFileSize
  else .ok ()

/-- Every type a purpose allows has an extension, so it can be uploaded. -/
theorem mimeTypeToExtensions_ne_nil {purpose : FilePurpose} {mimeType : String}
    (h : mimeType ∈ (filePurposeDefinitions purpose).allowedMimeTypes) :
    mimeTypeToExtensions mimeType ≠ [] := by
  have hall : ∀ p : FilePurpose, ∀ m ∈ (filePurposeDefinitions p).allowedMimeTypes,
      mimeTypeToExtensions m ≠ [] := by
    intro p
    cases p <;> decide
  exact hall purpose mimeType h

/-- **What validation accepts**: a type the purpose allows, one of its extensions, the bytes of that
type and a size from one byte to the limit of the purpose. -/
theorem validate_eq_ok {ports : Ports} {input : FileValidationInput} :
    validate ports input = .ok () ↔
      input.mimeType ∈ (filePurposeDefinitions input.purpose).allowedMimeTypes ∧
      isExtensionCoherent input.extension input.mimeType = true ∧
      ports.detect input.buffer = some input.mimeType ∧
      0 < input.size ∧ input.size ≤ (filePurposeDefinitions input.purpose).maxSizeBytes := by
  unfold validate
  dsimp only
  by_cases hm : input.mimeType ∈ (filePurposeDefinitions input.purpose).allowedMimeTypes
  swap
  · rw [if_pos hm]; exact ⟨nofun, fun h => absurd h.1 hm⟩
  rw [if_neg (not_not.mpr hm)]
  by_cases he : isExtensionCoherent input.extension input.mimeType = false
  · rw [if_pos he, he]; exact ⟨nofun, fun h => absurd h.2.1 Bool.false_ne_true⟩
  rw [if_neg he]
  by_cases hd : ports.detect input.buffer = some input.mimeType
  swap
  · rw [if_pos hd]; exact ⟨nofun, fun h => absurd h.2.2.1 hd⟩
  rw [if_neg (not_not.mpr hd)]
  by_cases hs : input.size = 0 ∨ (filePurposeDefinitions input.purpose).maxSizeBytes < input.size
  · rw [if_pos hs]
    exact ⟨nofun, fun h => by omega⟩
  · rw [if_neg hs]
    exact ⟨fun _ => ⟨hm, by simpa using he, hd, by omega, by omega⟩, fun _ => rfl⟩

end Neltrik.FileStorage.Validation
