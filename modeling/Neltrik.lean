import Neltrik.Lib.Effect
import Neltrik.Lib.Machine
import Neltrik.Lib.Trace
import Neltrik.Lib.Pool
import Neltrik.Lib.Interleaving
import Neltrik.Lib.OneTime
import Neltrik.Lib.Ownership
import Neltrik.Lib.Table
import Neltrik.Lib.OptimisticLock
import Neltrik.Lib.Scan
import Neltrik.Lib.Runs
import Neltrik.Lib.Segments
import Neltrik.Lib.Framing
import Neltrik.Lib.Utf16
import Neltrik.Lib.IsoInstant
import Neltrik.Lib.Paging
import Neltrik.Lib.SamePage
import Neltrik.Lib.Walk
import Neltrik.Lib.FileTree
import Neltrik.Lib.PosixPath
import Neltrik.Shared.Text
import Neltrik.Shared.Json
import Neltrik.Shared.Saga
import Neltrik.Shared.Compensations
import Neltrik.Shared.JobWorker
import Neltrik.Prisma.Where
import Neltrik.Prisma.Scope
import Neltrik.Prisma.Pagination
import Neltrik.FileStorage.Domain
import Neltrik.FileStorage.Persistence
import Neltrik.FileStorage.Validation
import Neltrik.FileStorage.UseCases
import Neltrik.FileStorage.System
import Neltrik.FileStorage.Steps
import Neltrik.FileStorage.Rows
import Neltrik.FileStorage.CleanContent
import Neltrik.FileStorage.QuotaCounter
import Neltrik.FileStorage.Binaries
import Neltrik.FileStorage.ScanQueue
import Neltrik.FileStorage.Usage
import Neltrik.FileStorage.Accounting
import Neltrik.FileStorage.Serialisation
import Neltrik.FileStorage.Reconciliation
import Neltrik.FileStorage.Listing
import Neltrik.FileStorage.Methods
import Neltrik.FileStorage.Mapping
import Neltrik.FileStorage.History
import Neltrik.FileStorage.Agreement
import Neltrik.FileStorage.PendingFiles
import Neltrik.FileStorage.ClamavClient
import Neltrik.FileStorage.ClamavAntivirus
import Neltrik.FileStorage.Purge
import Neltrik.FileStorage.LocalFileStorage
import Neltrik.Authorization.Domain
import Neltrik.Authorization.Database
import Neltrik.Authorization.UseCases
import Neltrik.Authorization.Rights
import Neltrik.Authorization.Preservation
import Neltrik.Authorization.Escalation
import Neltrik.Authorization.Registration
import Neltrik.Authorization.RegistrationSteps
import Neltrik.Authorization.Sequential
import Neltrik.Authorization.Atomicity
import Neltrik.Authorization.TerminalStates
import Neltrik.Authorization.Slugs
import Neltrik.Authentication.Domain
import Neltrik.Authentication.System
import Neltrik.Authentication.Steps
import Neltrik.Authentication.Revocation
import Neltrik.Authentication.Rotation
import Neltrik.Authentication.Tokens
import Neltrik.Authentication.Transactions
import Neltrik.Authentication.TransactionSteps
import Neltrik.Authentication.ResetTokens
import Neltrik.Authentication.VerificationTokens
import Neltrik.Authentication.AccountUpdates
import Neltrik.Authentication.Eviction
import Neltrik.Authentication.SessionLife
import Neltrik.Notifications.Domain
import Neltrik.Notifications.Template
import Neltrik.Notifications.UseCases
import Neltrik.Notifications.OptOut
import Neltrik.Notifications.Placeholders
import Neltrik.Notifications.Sending
import Neltrik.Notifications.Retries
import Neltrik.Notifications.LostUpdates
import Neltrik.Notifications.TemplateUseCases
import Neltrik.Notifications.TemplateIsolation
import Neltrik.Notifications.Rendering
import Neltrik.Authorization.RoleConfigurations
import Neltrik.Authorization.EnabledRoles
import Neltrik.Authorization.Invitations
import Neltrik.Shared.Sanitization
import Neltrik.Shared.RequestSanitization
import Neltrik.Shared.CsrfTokens
import Neltrik.Authentication.Passwords
import Neltrik.Lib.Html
import Neltrik.Notifications.TemplateHtml
import Neltrik.Audit.AuditMetadata
import Neltrik.Lib.Serial
import Neltrik.Audit.Events
import Neltrik.Identity.System
import Neltrik.Identity.Steps
import Neltrik.Identity.Serialisation
import Neltrik.Identity.Suspension
import Neltrik.Http.Routes
import Neltrik.Http.Guards
import Neltrik.Http.Access
import Neltrik.Http.Steps
import Neltrik.Http.Tokens
import Neltrik.Http.Admission
import Neltrik.Http.Suspensions
import Neltrik.Http.Refusals
import Neltrik.Lib.Parts
import Neltrik.Lib.Restrict
import Neltrik.FileStorage.TenantParts
import Neltrik.FileStorage.Tenants
import Neltrik.FileStorage.TenantSteps
import Neltrik.FileStorage.Isolation
import Neltrik.Lib.Directory
import Neltrik.Notifications.PreferenceSystem
import Neltrik.Notifications.PreferenceChoices
import Neltrik.Notifications.TemplateSystem
import Neltrik.Notifications.TemplateDirectory
