import NextDBM.Access.Authorised
import NextDBM.Access.Grants
import NextDBM.Access.Mutations
import NextDBM.Access.Proofs.AgreementProofs
import NextDBM.Access.Proofs.GrantsProofs
import NextDBM.Access.Proofs.LookupProofs
import NextDBM.Access.Proofs.MembershipProofs
import NextDBM.Access.Proofs.VisibilityProofs
import NextDBM.Access.Proofs.WorkerCommandsProofs
import NextDBM.Access.Requests
import NextDBM.Access.WorkerCommands
import NextDBM.Accounts.AccessTokens
import NextDBM.Accounts.FailedLogins
import NextDBM.Accounts.LoginPolicy
import NextDBM.Accounts.Migration
import NextDBM.Accounts.Online
import NextDBM.Accounts.Passwords
import NextDBM.Accounts.PolicyRules
import NextDBM.Accounts.PolicyWrites
import NextDBM.Accounts.Proofs.AccessTokensProofs
import NextDBM.Accounts.Proofs.FailedLoginsProofs
import NextDBM.Accounts.Proofs.LockoutProofs
import NextDBM.Accounts.Proofs.LoginPolicyProofs
import NextDBM.Accounts.Proofs.MigrationProofs
import NextDBM.Accounts.Proofs.OnlineProofs
import NextDBM.Accounts.Proofs.OnlineRunProofs
import NextDBM.Accounts.Proofs.PasswordProofs
import NextDBM.Accounts.Proofs.PolicyGroupsProofs
import NextDBM.Accounts.Proofs.PolicyRulesProofs
import NextDBM.Accounts.Proofs.PolicyWritesProofs
import NextDBM.Accounts.Proofs.PropertyCacheProofs
import NextDBM.Accounts.Proofs.ReferencesProofs
import NextDBM.Accounts.Proofs.RestartProofs
import NextDBM.Accounts.Proofs.RoleChangesProofs
import NextDBM.Accounts.Proofs.SshdProofs
import NextDBM.Accounts.Proofs.TokenProofs
import NextDBM.Accounts.Proofs.UserUpdateProofs
import NextDBM.Accounts.Proofs.WeekGridProofs
import NextDBM.Accounts.Proofs.WeekTimeProofs
import NextDBM.Accounts.Sshd
import NextDBM.Accounts.Tokens
import NextDBM.Accounts.UserUpdate
import NextDBM.Accounts.WeekGrid
import NextDBM.Accounts.WeekTime
import NextDBM.Assets.Attributes
import NextDBM.Assets.EntryPoints
import NextDBM.Assets.KeyRotation
import NextDBM.Assets.Proofs.AttributesProofs
import NextDBM.Assets.Proofs.KeyRotationProofs
import NextDBM.Assets.Proofs.ParametersProofs
import NextDBM.Assets.Proofs.SessionSecretsProofs
import NextDBM.Assets.Proofs.StoredProofs
import NextDBM.Assets.SessionSecrets
import NextDBM.Backups.Backup
import NextDBM.Backups.Proofs.BackupProofs
import NextDBM.Backups.Proofs.ReferencesProofs
import NextDBM.Backups.Proofs.TranslationsProofs
import NextDBM.Editor.Attach
import NextDBM.Editor.Converters
import NextDBM.Editor.Framing
import NextDBM.Editor.Messages
import NextDBM.Editor.ObjectTree
import NextDBM.Editor.Output
import NextDBM.Editor.Proofs.AttachProofs
import NextDBM.Editor.Proofs.ConvertersProofs
import NextDBM.Editor.Proofs.FramingProofs
import NextDBM.Editor.Proofs.MessagesProofs
import NextDBM.Editor.Proofs.ObjectTreeProofs
import NextDBM.Editor.Proofs.OutputProofs
import NextDBM.Editor.Proofs.ResponsesProofs
import NextDBM.Editor.Proofs.ResultGridProofs
import NextDBM.Editor.Proofs.RowConditionsProofs
import NextDBM.Editor.Proofs.RowLiteralsProofs
import NextDBM.Editor.Proofs.TableDesignerProofs
import NextDBM.Editor.Proofs.TabsProofs
import NextDBM.Editor.Responses
import NextDBM.Editor.ResultGrid
import NextDBM.Editor.RowConditions
import NextDBM.Editor.RowEditing
import NextDBM.Editor.TableDesigner
import NextDBM.Editor.Tabs
import NextDBM.Files.Archives
import NextDBM.Files.Export
import NextDBM.Files.Import
import NextDBM.Files.Proofs.ArchivesProofs
import NextDBM.Files.Proofs.ExportProofs
import NextDBM.Files.Proofs.ImportProofs
import NextDBM.Files.Proofs.QuotaProofs
import NextDBM.Files.Proofs.StorageProofs
import NextDBM.Files.Proofs.TransferProofs
import NextDBM.Files.Proofs.ZipRoundTripProofs
import NextDBM.Files.Storage
import NextDBM.Gate.Manager
import NextDBM.Gate.Proofs.GateProofs
import NextDBM.Gate.Proofs.ManagerProofs
import NextDBM.Gate.Security
import NextDBM.Gateways.Configuration
import NextDBM.Gateways.Proofs.ConfigurationProofs
import NextDBM.Gateways.Proofs.TunnelProofs
import NextDBM.Gateways.Tunnels
import NextDBM.Jobs.CheckStatus
import NextDBM.Jobs.Proofs.CheckStatusProofs
import NextDBM.Jobs.Proofs.SchedulerProofs
import NextDBM.Jobs.Proofs.ShellRunProofs
import NextDBM.Jobs.Proofs.SystemLoadProofs
import NextDBM.Jobs.Scheduler
import NextDBM.Jobs.ShellRun
import NextDBM.Jobs.SystemLoad
import NextDBM.Library.Base64
import NextDBM.Library.BlockMode
import NextDBM.Library.Blocks
import NextDBM.Library.Calendar
import NextDBM.Library.Calls
import NextDBM.Library.DiskUsage
import NextDBM.Library.FileSystem
import NextDBM.Library.Forests
import NextDBM.Library.IPv4
import NextDBM.Library.Int64
import NextDBM.Library.MD5
import NextDBM.Library.MaximalRuns
import NextDBM.Library.MySqlAssignments
import NextDBM.Library.MySqlEscapes
import NextDBM.Library.MySqlRows
import NextDBM.Library.MySqlTableBody
import NextDBM.Library.MySqlTables
import NextDBM.Library.MySqlText
import NextDBM.Library.NaturalKeys
import NextDBM.Library.Paging
import NextDBM.Library.Paths
import NextDBM.Library.Refresh
import NextDBM.Library.Rounds
import NextDBM.Library.Runs
import NextDBM.Library.ScriptNumber
import NextDBM.Library.Tables
import NextDBM.Library.Text
import NextDBM.Library.TimeText
import NextDBM.Library.Transactions
import NextDBM.Library.Url
import NextDBM.Model.Encryption
import NextDBM.Model.JsonTime
import NextDBM.Model.Proofs.CiphertextsProofs
import NextDBM.Model.Proofs.JsonTimeProofs
import NextDBM.Model.Rows
import NextDBM.Model.Secrets
import NextDBM.Proxy.Commands
import NextDBM.Proxy.Connection
import NextDBM.Proxy.Endings
import NextDBM.Proxy.Handlers
import NextDBM.Proxy.Login
import NextDBM.Proxy.Proofs.CommandsProofs
import NextDBM.Proxy.Proofs.EndingsProofs
import NextDBM.Proxy.Proofs.HandlersProofs
import NextDBM.Proxy.Proofs.IsolationProofs
import NextDBM.Proxy.Proofs.LoginProofs
import NextDBM.Proxy.Proofs.ReloadProofs
import NextDBM.Roles.Proofs.RoleProofs
import NextDBM.Roles.RoleService
import NextDBM.Sessions.Handshake
import NextDBM.Sessions.Instructions
import NextDBM.Sessions.Lifecycle
import NextDBM.Sessions.Proofs.HandshakeProofs
import NextDBM.Sessions.Proofs.InstructionsProofs
import NextDBM.Sessions.Proofs.LifecycleProofs
import NextDBM.Sessions.Proofs.RecordingProofs
import NextDBM.Sessions.Proofs.RetentionProofs
import NextDBM.Sessions.Proofs.ReviewProofs
import NextDBM.Sessions.Retention
import NextDBM.Startup.InitData
import NextDBM.Startup.Proofs.InitDataProofs
import NextDBM.Startup.Proofs.PremisesProofs
import NextDBM.Startup.Proofs.StartsProofs
import NextDBM.Web.Auth
import NextDBM.Web.OperLog
import NextDBM.Web.Pages
import NextDBM.Web.Proofs.AuthProofs
import NextDBM.Web.Proofs.OperLogProofs
import NextDBM.Web.Proofs.PagesProofs
import NextDBM.Web.Routes
import NextDBM.Files.SessionFiles
import NextDBM.Files.Proofs.SessionFilesProofs
