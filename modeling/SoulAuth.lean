import SoulAuth.Framework.Program
import SoulAuth.Framework.Interleaving
import SoulAuth.Framework.OneShot
import SoulAuth.Utils.Text
import SoulAuth.Platform
import SoulAuth.Utils.RecordId
import SoulAuth.Error
import SoulAuth.Config
import SoulAuth.Utils.Validation
import SoulAuth.Utils.Totp
import SoulAuth.Models.User
import SoulAuth.Models.Identity
import SoulAuth.Models.Oidc
import SoulAuth.Models.Factors
import SoulAuth.Database.Accounts
import SoulAuth.Database.Tokens
import SoulAuth.Database.Factors
import SoulAuth.Database.Machine
import SoulAuth.Services.Database
import SoulAuth.Services.Credential
import SoulAuth.Services.Identity
import SoulAuth.Services.Mfa
import SoulAuth.Services.Auth
import SoulAuth.Services.AccountLockout
import SoulAuth.Services.Oidc
import SoulAuth.Services.OidcClientManagement
import SoulAuth.Services.UserManagement
import SoulAuth.Services.AiActor
import SoulAuth.Routes.Auth
import SoulAuth.Routes.Oidc
import SoulAuth.Routes.System
import SoulAuth.Proofs.Footprint
import SoulAuth.Proofs.History
import SoulAuth.Proofs.Draws
import SoulAuth.Proofs.Conduct
import SoulAuth.Proofs.ConductAuth
import SoulAuth.Proofs.ConductOidc
import SoulAuth.Proofs.ConductSystem
import SoulAuth.Proofs.Tables
import SoulAuth.Proofs.SingleUse
import SoulAuth.Proofs.CodeExchange
import SoulAuth.Services.RateLimiter
import SoulAuth.Proofs.SlidingWindow
import SoulAuth.Services.SharedLimiter
import SoulAuth.Proofs.SharedLimiter
import SoulAuth.Framework.HashChain
import SoulAuth.Framework.Residuals
import SoulAuth.Framework.Delimited
import SoulAuth.Models.Json
import SoulAuth.Models.UserActivity
import SoulAuth.Models.Permission
import SoulAuth.Database.Audit
import SoulAuth.Services.AuditIntegrity
import SoulAuth.Services.AuditLogger
import SoulAuth.Services.AuditQueue
import SoulAuth.Routes.Audit
import SoulAuth.Proofs.AuditScan
import SoulAuth.Proofs.TamperEvidence
import SoulAuth.Proofs.RecordKeys
import SoulAuth.Proofs.Normalisation
import SoulAuth.Proofs.AuditWriters
import SoulAuth.Proofs.AuditChains
import SoulAuth.Proofs.AuditVerification
import SoulAuth.Proofs.AuditHealth
import SoulAuth.Proofs.FlushBarrier
import SoulAuth.Framework.Alone
import SoulAuth.Framework.Runs
import SoulAuth.Proofs.AuditHead
import SoulAuth.Framework.KeyedTable
import SoulAuth.Proofs.LockoutTable
import SoulAuth.Proofs.LockoutCalls
import SoulAuth.Proofs.LockoutIsolation
import SoulAuth.Proofs.LockoutCounting
import SoulAuth.Proofs.LockoutPersistence
import SoulAuth.Proofs.LoginGuard
import SoulAuth.Proofs.PasswordGuessing
import SoulAuth.Proofs.UserRow
import SoulAuth.Proofs.AiActors
import SoulAuth.Proofs.AiAuthentication
import SoulAuth.Proofs.AiSessions
import SoulAuth.Proofs.Retirement
import SoulAuth.Proofs.RpLogout
import SoulAuth.Proofs.ExternalLogins
import SoulAuth.Proofs.TokenKinds
import SoulAuth.Database.Roles
import SoulAuth.Proofs.Bootstrap
import SoulAuth.Proofs.RoleViews
import SoulAuth.Proofs.RoleIntegrity
import SoulAuth.Proofs.LoginErrors
import SoulAuth.Proofs.AdminLogin
import SoulAuth.Routes.CachedAuth
import SoulAuth.Proofs.CachedRevocation
import SoulAuth.Proofs.CacheRuns
import SoulAuth.Proofs.MfaEnrolment
import SoulAuth.Proofs.StatusSync
import SoulAuth.Proofs.DeletedPasswords
import SoulAuth.Proofs.ResetTokens
import SoulAuth.Routes.LoginPage
import SoulAuth.Proofs.IdTokenConduct
import SoulAuth.Proofs.AuthMethods
import SoulAuth.Proofs.RoleListing
import SoulAuth.Proofs.AuthTimes
import SoulAuth.Proofs.ClientLifecycle
import SoulAuth.Proofs.LoginDisclosure
import SoulAuth.Proofs.RateLimitLayer
import SoulAuth.Proofs.ExternalBinding
import SoulAuth.Proofs.LiveSids
import SoulAuth.Proofs.RefreshErrors
import SoulAuth.Proofs.FaultyRuns
import SoulAuth.Proofs.AiRegistration
import SoulAuth.Proofs.Registration
import SoulAuth.Proofs.StatusRevocation
import SoulAuth.Proofs.AuthorizeTrip
import SoulAuth.Proofs.Scopes
import SoulAuth.Framework.Utf8
import SoulAuth.Framework.QueryString
import SoulAuth.Framework.Uri
import SoulAuth.Framework.TwoRuns
import SoulAuth.Proofs.Disclosure
import SoulAuth.Routes.Redirects
import SoulAuth.Proofs.Redirects
import SoulAuth.Proofs.MaxAge
import SoulAuth.Framework.Base64
import SoulAuth.Framework.Widening
import SoulAuth.Routes.ClientAuth
import SoulAuth.Routes.Console
import SoulAuth.Proofs.ClientAuth
import SoulAuth.Proofs.Transport
import SoulAuth.Proofs.TotpAcceptance
import SoulAuth.Proofs.RemainingRequests
import SoulAuth.Proofs.LockoutCleanup
import SoulAuth.Proofs.Usernames
import SoulAuth.Proofs.CanonicalJson
import SoulAuth.Proofs.SignedBytes
import SoulAuth.Proofs.VerifiedLogins
import SoulAuth.Proofs.IssuanceGate
import SoulAuth.Proofs.Artefacts
import SoulAuth.Proofs.ReplayRevocation
import SoulAuth.Proofs.CompleteRevocation
import SoulAuth.Framework.Mirror
import SoulAuth.Proofs.SealedMfa
