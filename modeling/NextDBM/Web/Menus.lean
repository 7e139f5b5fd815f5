import Mathlib.Data.String.Basic

/-!
# Menus

The menu items that roles consist of, with the paths they permit (`server/service/menu.go` and
`menu_default_data.go`). The names and parents of the items, and the methods of the permissions, are
left out: the permission check reads the paths alone.
-/

namespace NextDBM

/-- `model.Menu`. -/
structure Menu where
  id : String
  /-- The paths of the permissions. -/
  permissions : List String

def defaultMenu : List Menu :=
  [⟨"dashboard", ["/overview/counter", "/overview/asset", "/overview/date-counter"]⟩,
    ⟨"resource", []⟩,
    ⟨"dbm-asset", ["/dbm-assets/paging", "/tags"]⟩,
    ⟨"sqls", ["/sqls/paging", "/tags"]⟩,
    ⟨"asset", ["/assets/paging", "/tags"]⟩,
    ⟨"asset-access", ["/sessions", "/sessions/:id/tunnel", "/sessions/:id/ssh",
        "/sessions/:id/stats", "/sessions/:id/connect", "/sessions/:id/resize",
        "/sessions/:id/ls", "/sessions/:id/download", "/sessions/:id/upload",
        "/sessions/:id/edit", "/sessions/:id/mkdir", "/sessions/:id/rm", "/sessions/:id/rename"]⟩,
    ⟨"asset-add", ["/assets", "/access-gateways", "/credentials"]⟩,
    ⟨"asset-edit", ["/assets/:id", "/assets/:id", "/access-gateways", "/credentials"]⟩,
    ⟨"asset-del", ["/assets/:id"]⟩,
    ⟨"asset-copy", ["/assets/:id", "/assets"]⟩,
    ⟨"asset-conn-test", ["/assets/:id/tcping"]⟩,
    ⟨"asset-import", ["/assets/import"]⟩,
    ⟨"asset-change-owner", ["/users", "/assets/:id/change-owner"]⟩,
    ⟨"asset-detail", ["/assets/:id"]⟩,
    ⟨"asset-authorised-user", ["/authorised/users/paging", "/authorised/selected", "/users",
        "/strategies", "/command-filters", "/authorised/users"]⟩,
    ⟨"asset-authorised-user-add", ["/authorised/:id/users"]⟩,
    ⟨"asset-authorised-user-del", ["/authorised/:id"]⟩,
    ⟨"asset-authorised-user-group", ["/authorised/user-groups/paging", "/authorised/selected",
        "/user-groups", "/strategies", "/command-filters", "/authorised/user-groups"]⟩,
    ⟨"asset-authorised-user-group-add", ["/authorised/:id/user-groups"]⟩,
    ⟨"asset-authorised-user-group-del", ["/authorised/:id"]⟩,
    ⟨"credential", ["/credentials/paging"]⟩,
    ⟨"credential-add", ["/credentials"]⟩,
    ⟨"credential-del", ["/credentials/:id"]⟩,
    ⟨"credential-edit", ["/credentials/:id"]⟩,
    ⟨"command", ["/commands/paging"]⟩,
    ⟨"command-add", ["/commands"]⟩,
    ⟨"command-edit", ["/commands/:id"]⟩,
    ⟨"command-del", ["/commands/:id"]⟩,
    ⟨"sensitive-command", ["/sensitive-commands/paging", "/sensitive-commands",
        "/sensitive-commands/:id", "/sensitive-commands/:id"]⟩,
    ⟨"trigger-command", ["/trigger-commands/paging", "/trigger-commands",
        "/trigger-commands/:id", "/trigger-commands/:id"]⟩,
    ⟨"command-exec", ["/assets/paging", "/tags", "/sessions", "/term"]⟩,
    ⟨"command-change-owner", ["/users", "/commands/:id/change-owner"]⟩,
    ⟨"webhook", ["/webhooks/paging"]⟩,
    ⟨"webhook-add", ["/webhooks"]⟩,
    ⟨"webhook-edit", ["/webhooks/:id"]⟩,
    ⟨"webhook-del", ["/webhooks/:id"]⟩,
    ⟨"access-gateway", ["/access-gateways/paging"]⟩,
    ⟨"access-gateway-add", ["/access-gateways"]⟩,
    ⟨"access-gateway-del", ["/access-gateways/:id"]⟩,
    ⟨"access-gateway-edit", ["/access-gateways/:id"]⟩,
    ⟨"git-manager", []⟩,
    ⟨"git", ["/git/paging", "/tags"]⟩,
    ⟨"build-manager", []⟩,
    ⟨"build", ["/build/paging", "/tags"]⟩,
    ⟨"session-audit", []⟩,
    ⟨"online-session", ["/sessions/paging"]⟩,
    ⟨"online-session-disconnect", ["/sessions/:id/disconnect"]⟩,
    ⟨"online-session-monitor", ["/sessions/:id/tunnel-monitor", "/sessions/:id/ssh-monitor"]⟩,
    ⟨"offline-session", ["/sessions/paging"]⟩,
    ⟨"offline-session-playback", ["/sessions/:id/recording"]⟩,
    ⟨"offline-session-del", ["/sessions/:id"]⟩,
    ⟨"offline-session-clear", ["/sessions/clear"]⟩,
    ⟨"offline-session-command", ["/sessions/:id/commands/paging"]⟩,
    ⟨"offline-session-reviewed", []⟩,
    ⟨"offline-session-unreviewed", []⟩,
    ⟨"offline-session-reviewed-all", []⟩,
    ⟨"log-audit", []⟩,
    ⟨"login-log", ["/login-logs/paging"]⟩,
    ⟨"login-log-del", ["/login-logs/:id"]⟩,
    ⟨"login-log-clear", ["/login-logs/clear"]⟩,
    ⟨"sql-log", ["/sql-logs/paging"]⟩,
    ⟨"sql-log-del", ["/sql-logs/:id"]⟩,
    ⟨"sql-log-clear", ["/sql-logs/clear"]⟩,
    ⟨"webhook-push-log", ["/webhook-push-logs/paging"]⟩,
    ⟨"webhook-push-log-del", ["/webhook-push-logs/:id"]⟩,
    ⟨"webhook-push-log-clear", ["/webhook-push-logs/clear"]⟩,
    ⟨"oper-log", ["/oper-logs/paging"]⟩,
    ⟨"oper-log-del", ["/oper-logs/:id"]⟩,
    ⟨"oper-log-clear", ["/oper-logs/clear"]⟩,
    ⟨"storage-log", ["/storage-logs/paging"]⟩,
    ⟨"storage-log-del", ["/storage-logs/:id"]⟩,
    ⟨"storage-log-clear", ["/storage-logs/clear"]⟩,
    ⟨"session-command", ["/session-commands/paging"]⟩,
    ⟨"ops", []⟩,
    ⟨"job", ["/jobs/paging"]⟩,
    ⟨"job-add", ["/jobs", "/assets/paging"]⟩,
    ⟨"job-del", ["/jobs/:id"]⟩,
    ⟨"job-edit", ["/jobs/:id", "/assets/paging"]⟩,
    ⟨"job-run", ["/jobs/:id/exec"]⟩,
    ⟨"job-change-status", ["/jobs/:id/change-status"]⟩,
    ⟨"job-log", ["/jobs/:id/logs/paging"]⟩,
    ⟨"job-log-clear", ["/jobs/:id/logs"]⟩,
    ⟨"storage", ["/storages/paging"]⟩,
    ⟨"storage-add", ["/storages"]⟩,
    ⟨"storage-del", ["/storages/:id"]⟩,
    ⟨"storage-edit", ["/storages/:id"]⟩,
    ⟨"storage-browse", ["/storages/:id/ls"]⟩,
    ⟨"storage-browse-download", ["/storages/:id/download"]⟩,
    ⟨"storage-browse-upload", ["/storages/:id/upload"]⟩,
    ⟨"storage-browse-mkdir", ["/storages/:id/mkdir"]⟩,
    ⟨"storage-browse-rm", ["/storages/:id/rm"]⟩,
    ⟨"storage-browse-rename", ["/storages/:id/rename"]⟩,
    ⟨"storage-browse-edit", ["/storages/:id/edit"]⟩,
    ⟨"monitoring", ["/overview/ps"]⟩,
    ⟨"security", []⟩,
    ⟨"access-security", ["/securities/paging"]⟩,
    ⟨"access-security-add", ["/securities"]⟩,
    ⟨"access-security-del", ["/securities/:id"]⟩,
    ⟨"access-security-edit", ["/securities/:id"]⟩,
    ⟨"login-policy", ["/login-policies/paging"]⟩,
    ⟨"login-policy-add", ["/login-policies"]⟩,
    ⟨"login-policy-del", ["/login-policies/:id"]⟩,
    ⟨"login-policy-edit", ["/login-policies/:id"]⟩,
    ⟨"login-policy-detail", ["/login-policies/:id"]⟩,
    ⟨"login-policy-bind-user", ["/login-policies/:id/users/paging"]⟩,
    ⟨"login-policy-unbind-user", ["/authorised/:id"]⟩,
    ⟨"identity", []⟩,
    ⟨"user", ["/users/paging", "/roles"]⟩,
    ⟨"user-add", ["/users"]⟩,
    ⟨"user-del", ["/users/:id"]⟩,
    ⟨"user-edit", ["/users/:id", "/users/:id"]⟩,
    ⟨"user-change-password", ["/users/:id/change-password"]⟩,
    ⟨"user-change-proxy-auth", ["/users/:id/change-proxy-auth"]⟩,
    ⟨"user-enable-disable", ["/users/:id/status"]⟩,
    ⟨"user-reset-totp", ["/users/:id/reset-totp"]⟩,
    ⟨"user-detail", ["/users/:id", "/authorised/assets/paging"]⟩,
    ⟨"user-authorised-asset", ["/authorised/assets/paging"]⟩,
    ⟨"user-bind-asset", ["/authorised/selected", "/assets", "/strategies", "/command-filters"]⟩,
    ⟨"user-unbind-asset", ["/authorised/:id"]⟩,
    ⟨"user-proxy-asset", ["/authorised/:id"]⟩,
    ⟨"user-login-policy", ["/login-policies/paging"]⟩,
    ⟨"user-unbind-login-policy", ["/authorised/:id"]⟩,
    ⟨"role", ["/roles/paging"]⟩,
    ⟨"role-add", ["/roles"]⟩,
    ⟨"role-del", ["/roles/:id"]⟩,
    ⟨"role-edit", ["/roles/:id", "/roles/:id"]⟩,
    ⟨"role-detail", ["/roles/:id", "/menus"]⟩,
    ⟨"user-group", ["/user-groups/paging"]⟩,
    ⟨"user-group-add", ["/user-groups"]⟩,
    ⟨"user-group-del", ["/user-groups:/id"]⟩,
    ⟨"user-group-edit", ["/user-groups/:id", "/user-groups/:id"]⟩,
    ⟨"user-group-detail", ["/user-groups/:id"]⟩,
    ⟨"user-group-authorised-asset", ["/authorised/assets/paging"]⟩,
    ⟨"user-group-bind-asset", ["/authorised/selected", "/assets", "/strategies",
        "/command-filters"]⟩,
    ⟨"user-group-unbind-asset", ["/authorised/:id"]⟩,
    ⟨"sensitive-command-group", ["/sensitive-command-groups/paging"]⟩,
    ⟨"sensitive-command-group-detail", ["/sensitive-command-groups/:id"]⟩,
    ⟨"sensitive-command-group-add", ["/sensitive-command-groups"]⟩,
    ⟨"sensitive-command-group-edit", ["/sensitive-command-groups/:id",
        "/sensitive-command-groups/:id"]⟩,
    ⟨"sensitive-command-group-del", ["/sensitive-command-groups/:id"]⟩,
    ⟨"trigger-command-group", ["/trigger-command-groups/paging"]⟩,
    ⟨"trigger-command-group-detail", ["/trigger-command-groups/:id"]⟩,
    ⟨"trigger-command-group-add", ["/trigger-command-groups"]⟩,
    ⟨"trigger-command-group-edit", ["/trigger-command-groups/:id", "/trigger-command-groups/:id"]⟩,
    ⟨"trigger-command-group-del", ["/trigger-command-groups/:id"]⟩,
    ⟨"command-filter", ["/command-filters/paging"]⟩,
    ⟨"command-filter-add", ["/command-filters"]⟩,
    ⟨"command-filter-del", ["/command-filters/:id"]⟩,
    ⟨"command-filter-edit", ["/command-filters/:id", "/command-filters/:id"]⟩,
    ⟨"command-filter-detail", ["/command-filters/:id"]⟩,
    ⟨"command-filter-rule", ["/command-filter-rules/:id"]⟩,
    ⟨"command-filter-rule-add", ["/command-filter-rules"]⟩,
    ⟨"command-filter-rule-put", ["/command-filter-rules/:id", "/command-filter-rules/:id"]⟩,
    ⟨"command-filter-rule-del", ["/command-filter-rules/:id"]⟩,
    ⟨"strategy", ["/strategies/paging"]⟩,
    ⟨"strategy-add", ["/strategies"]⟩,
    ⟨"strategy-edit", ["/strategies/:id", "/strategies/:id"]⟩,
    ⟨"strategy-del", ["/strategies/:id"]⟩,
    ⟨"strategy-detail", ["/strategies/:id"]⟩,
    ⟨"setting", ["/properties", "/properties", "/ldap-user-sync", "/license", "/license",
        "/license/machine-id"]⟩,
    ⟨"info", []⟩]

/-- `GetPermissionByMenu`; no id occurs twice in the table. -/
def getPermissionByMenu (menu : String) : List String :=
  match defaultMenu.find? fun m => m.id == menu with
  | some m => m.permissions
  | none => []

end NextDBM
