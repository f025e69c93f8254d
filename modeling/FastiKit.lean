import FastiKit.Interleave.Program
import FastiKit.Interleave.Faults
import FastiKit.Interleave.Pool
import FastiKit.Interleave.RelyGuarantee
import FastiKit.Interleave.Triples
import FastiKit.Interleave.Serial
import FastiKit.Interleave.Machine
import FastiKit.Interleave.Ownership
import FastiKit.Interleave.Monitor
import FastiKit.Interleave.Simulation
import FastiKit.Interleave.Remainder
import FastiKit.Relational.Table
import FastiKit.Relational.Sessions
import FastiKit.Relational.Thinned
import FastiKit.Relational.Ddl
import FastiKit.KeyValue.Expiring
import FastiKit.Numeric.Rounding
import FastiKit.Auth.Entities
import FastiKit.Auth.Repositories
import FastiKit.Auth.World
import FastiKit.Auth.Services
import FastiKit.Auth.Routes
import FastiKit.Auth.Transactions
import FastiKit.Auth.AllOrNothing
import FastiKit.Auth.Evolution
import FastiKit.Auth.Effects
import FastiKit.Auth.Guarantee
import FastiKit.Auth.Obligations
import FastiKit.Auth.RefreshRotation
import FastiKit.Auth.ReuseDetection
import FastiKit.Auth.TabRace
import FastiKit.Auth.Calls
import FastiKit.Auth.ClosedAccount
import FastiKit.Auth.SingleUseLinks
import FastiKit.Auth.SupersededLinks
import FastiKit.Auth.VerifiedAddress
import FastiKit.Auth.PasswordChange
import FastiKit.Auth.EvictedLogins
import FastiKit.Auth.IssuedTokens
import FastiKit.Auth.Pipelines
import FastiKit.Auth.Blocklist
import FastiKit.Auth.SessionLifetime
import FastiKit.Auth.TokenCheck
import FastiKit.Auth.Outages
import FastiKit.Auth.Keyed
import FastiKit.Auth.RevokedTokens
import FastiKit.Auth.AccountExistence
import FastiKit.Auth.LogoutFrame
import FastiKit.Auth.MailedLinks
import FastiKit.Auth.Readings
import FastiKit.Auth.Housekeeping
import FastiKit.Auth.Strangers
import FastiKit.Outbox.Relay
import FastiKit.Outbox.Enqueue
import FastiKit.Outbox.Delivery
import FastiKit.Outbox.Exclusive
import FastiKit.DeadLetter.Repository
import FastiKit.DeadLetter.RetryOnce
import FastiKit.DeadLetter.Cycle
import FastiKit.Cache.Decorator
import FastiKit.Cache.TagSets
import FastiKit.Cache.Invalidation
import FastiKit.Database.Session
import FastiKit.Database.Routing
import FastiKit.Database.Failover
import FastiKit.Database.MigrationLock
import FastiKit.Database.MigrationRuns
import FastiKit.Database.Versions
import FastiKit.Database.SchemaHistory
import FastiKit.Database.Deployment
import FastiKit.Outbox.Drain
import FastiKit.Language.Keywords
import FastiKit.Language.Lines
import FastiKit.Language.Ast
import FastiKit.Language.SmallParser
import FastiKit.Scaffold.RouterWiring
import FastiKit.Outbox.HandOver
import FastiKit.Outbox.Site
import FastiKit.Outbox.Health
import FastiKit.Asgi.Runs
import FastiKit.Http.Problem
import FastiKit.Http.Middlewares
import FastiKit.Http.Stack
import FastiKit.Language.Words
import FastiKit.User.ScopeMigration
import FastiKit.Scaffold.Names
import FastiKit.Scaffold.LegalNames
import FastiKit.Language.Repr
import FastiKit.Cache.Keys
import FastiKit.Auth.FailedClosure
import FastiKit.Auth.LaterChecks
import FastiKit.Auth.EntryLifetime
import FastiKit.User.EmailConflict
import FastiKit.Interleave.Linearizable
import FastiKit.DeadLetter.Admin
import FastiKit.DeadLetter.Linearizable
import FastiKit.Language.Dict
import FastiKit.Language.LineParser
import FastiKit.Scaffold.InitFiles
import FastiKit.Scaffold.MergeImports
import FastiKit.Language.Toml
import FastiKit.Scaffold.Pyproject
import FastiKit.System.Files
import FastiKit.Scaffold.Templates
import FastiKit.Scaffold.CreateAll
import FastiKit.Scaffold.Rejected
import FastiKit.Language.Json
import FastiKit.Logging.Formatter
import FastiKit.Scaffold.Settled
import FastiKit.Scaffold.Changes
import FastiKit.Scaffold.Idempotent
