import GoErp.Authz.RowFilter
import GoErp.Db.Copy
import GoErp.Db.Query
import GoErp.Domain.RlsAgree
import GoErp.Domain.RlsRead
import GoErp.Permission.Inheritance
import GoErp.Permission.Requests
import GoErp.Mfa.Totp
import GoErp.Mfa.Lockout
import GoErp.Event.Delivery
import GoErp.Registry.Publish
import GoErp.Auth.SessionSafe
import GoErp.Orm.TreePaths
import GoErp.Domain.FilterAccepts
import GoErp.Sdk.OrmDomain
import GoErp.Shell.FilterParams
import GoErp.Shell.ConditionEval
import GoErp.Notifications.PreferenceCache
import GoErp.Tenant.Resolve
import GoErp.Event.Identity
import GoErp.Wasm.Pool
import GoErp.Event.Transactional
import GoErp.Reload.Coordinator
import GoErp.Ws.Presence
import GoErp.Ws.HubInvariant
import GoErp.Orm.SearchRead
import GoErp.Shell.PivotHeaders
import GoErp.Tenant.Entitlements
import GoErp.Db.AuditPairing
import GoErp.Schema.Widening
import GoErp.FieldSec.Masking
import GoErp.Db.EtagCheck
import GoErp.Db.Renumber
import GoErp.Route.Namespace
import GoErp.Role.LastAdmin
import GoErp.Orm.HopPages
import GoErp.Auth.AcceptInvite
import GoErp.Wasm.TxLimiter
import GoErp.Shell.TimelineLanes
