import AutoDeploy.Deployment

namespace AutoDeploy

-- An error the server reports: the fields its callers look at.
structure PgError where
  code : String
  message : String
  constraintName : String
  routine : String
deriving DecidableEq, Repr

-- What a database call can fail with.
inductive DbError where
  | pg (e : PgError)
  | noRows
  | contextCanceled
  | deadlineExceeded
  | eof
  | unexpectedEOF
  | connClosed
  | net (detail : String)
  | other (detail : String)
deriving DecidableEq, Repr

-- The named errors callers compare against.
inductive Sentinel where
  | serverAuthorizationDenied
  | leaseStale
  | integrityConflict
  | invalidInput
  | jobTerminal
  | jobActivating
  | corruptState
  | candidateNotReady
  | noRouteHead
  | activationOpen
  | environmentBlocked
  | activationUnresolved
  | lateReportRecorded
  | routeMoved
  | constraintViolation
  | blockUnrecorded
  | outcomeMismatch
  | notFound
  | revisionConflict
  | revisionOverflow
  | routeHeadNotFound
  | routeHeadAlreadyExists
  | routeHeadConflict
  | hostnameTaken
  | hostnameImmutable
deriving DecidableEq, Repr

namespace Sentinel

def text : Sentinel → String
  | .serverAuthorizationDenied => "server authorization denied"
  | .leaseStale => "agent lease stale"
  | .integrityConflict => "agent lease integrity conflict"
  | .invalidInput => "agent lease invalid input"
  | .jobTerminal => "agent job already terminal"
  | .jobActivating => "agent job deployment is activating"
  | .corruptState => "agent lease corrupt state"
  | .candidateNotReady => "agent lease activation candidate release is not ready"
  | .noRouteHead => "agent lease activation environment has no route head"
  | .activationOpen => "agent lease activation operation is open"
  | .environmentBlocked => "agent lease activation environment is blocked by an unresolved activation"
  | .activationUnresolved =>
      "agent lease environment holds an unresolved activation that is not yet reconciliation_required; it cannot be resolved"
  | .lateReportRecorded =>
      "agent lease activation report recorded as reconciliation evidence; awaiting operator resolution"
  | .routeMoved => "agent lease activation route head moved since authorization"
  | .constraintViolation => "agent lease unexpected integrity violation"
  | .blockUnrecorded => "activation reconciliation block not recorded"
  | .outcomeMismatch => "agent lease declared outcome does not match the kind of block"
  | .notFound => "deployment not found"
  | .revisionConflict => "deployment revision conflict"
  | .revisionOverflow => "deployment revision exceeds PostgreSQL bigint"
  | .routeHeadNotFound => "route head not found"
  | .routeHeadAlreadyExists => "route head already exists"
  | .routeHeadConflict => "route head changed underneath you"
  | .hostnameTaken => "hostname is already assigned to another environment"
  | .hostnameImmutable => "route head hostname cannot change while a release is active"

end Sentinel

-- An error tree: a leaf, or a message in front of what it wraps. `both` is the error that
-- wraps two errors at once; `after` wraps its first part and only quotes the second.
inductive Error where
  | sentinel (s : Sentinel)
  | domain (e : Deployment.Error)
  | db (e : DbError)
  | plain (text : String)
  | wrap (message : String) (inner : Error)
  | detail (inner : Error) (message : String)
  | both (first second : Error)
  | after (inner : Error) (quoted : String)
deriving DecidableEq, Repr

namespace Error

-- `errors.Is` against a named error.
def is (s : Sentinel) : Error → Bool
  | .sentinel s' => s' == s
  | .wrap _ inner => inner.is s
  | .detail inner _ => inner.is s
  | .both first second => first.is s || second.is s
  | .after inner _ => inner.is s
  | _ => false

-- `errors.As` for a server error: the first one in the tree.
def asPg : Error → Option PgError
  | .db (.pg e) => some e
  | .wrap _ inner => inner.asPg
  | .detail inner _ => inner.asPg
  | .both first second => first.asPg <|> second.asPg
  | .after inner _ => inner.asPg
  | _ => none

-- Whether some leaf of the tree is a database error of this kind.
def hasDb (p : DbError → Bool) : Error → Bool
  | .db e => p e
  | .wrap _ inner => inner.hasDb p
  | .detail inner _ => inner.hasDb p
  | .both first second => first.hasDb p || second.hasDb p
  | .after inner _ => inner.hasDb p
  | _ => false

def hasDomain : Error → Bool
  | .domain _ => true
  | .wrap _ inner => inner.hasDomain
  | .detail inner _ => inner.hasDomain
  | .both first second => first.hasDomain || second.hasDomain
  | .after inner _ => inner.hasDomain
  | _ => false

end Error

namespace DbError

def text : DbError → String
  | .pg e => "ERROR: " ++ e.message ++ " (SQLSTATE " ++ e.code ++ ")"
  | .noRows => "no rows in result set"
  | .contextCanceled => "context canceled"
  | .deadlineExceeded => "context deadline exceeded"
  | .eof => "EOF"
  | .unexpectedEOF => "unexpected EOF"
  | .connClosed => "conn closed"
  | .net detail => detail
  | .other detail => detail

-- A trigger's RAISE EXCEPTION.
def raised (message : String) : DbError := .pg ⟨"P0001", message, "", "exec_stmt_raise"⟩

def checkViolation (relation constraint : String) : DbError :=
  .pg ⟨"23514", "new row for relation \"" ++ relation ++ "\" violates check constraint \"" ++
    constraint ++ "\"", constraint, "ExecConstraints"⟩

def uniqueViolation (constraint : String) : DbError :=
  .pg ⟨"23505", "duplicate key value violates unique constraint \"" ++ constraint ++ "\"",
    constraint, "_bt_check_unique"⟩

def foreignKeyViolation (relation constraint : String) : DbError :=
  .pg ⟨"23503", "insert or update on table \"" ++ relation ++ "\" violates foreign key constraint \"" ++
    constraint ++ "\"", constraint, "ri_ReportViolation"⟩

end DbError

namespace Deployment

def Status.text : Status → String
  | .queued => "queued"
  | .assigned => "assigned"
  | .fetching => "fetching"
  | .building => "building"
  | .starting => "starting"
  | .healthChecking => "health_checking"
  | .activating => "activating"
  | .healthy => "healthy"
  | .failed => "failed"
  | .cancelled => "cancelled"
  | .superseded => "superseded"
  | .rolledBack => "rolled_back"

def Defect.text : Defect → String
  | .deploymentIDRequired => "deployment ID is required"
  | .projectIDRequired => "project ID is required"
  | .environmentIDRequired => "environment ID is required"
  | .serverIDRequired => "server ID is required"
  | .commitSHARequired => "commit SHA is required"
  | .timestamps => "invalid deployment timestamps"
  | .revisionCount => "revision must equal event count"
  | .creationEventRequired => "creation event is required"
  | .creationEvent => "invalid creation event"
  | .eventTimestamp index => "event " ++ toString index ++ " timestamp precedes prior event"
  | .eventTransition source target =>
      "invalid event transition " ++ (source.map Status.text).getD "" ++ " -> " ++
        (target.map Status.text).getD ""
  | .disagreesWithEvents => "status or updated timestamp disagrees with events"

def Error.text : Error → String
  | .invalidDeployment cause => "invalid deployment: " ++ cause.text
  | .unsupportedVersion v => "invalid deployment snapshot: unsupported schema version " ++ toString v
  | .invalidSnapshot cause => "invalid deployment snapshot: " ++ cause.text
  | .invalidTransition current requested =>
      "invalid deployment transition: " ++ current.text ++ " -> " ++ requested.text
  | .terminalState current => "deployment is in a terminal state: " ++ current.text
  | .invalidTimestamp current requested =>
      "transition timestamp precedes current state: current=" ++ current.text ++ " requested=" ++
        requested.text

end Deployment

def Error.text : Error → String
  | .sentinel s => s.text
  | .domain e => e.text
  | .db e => e.text
  | .plain t => t
  | .wrap message inner => message ++ ": " ++ inner.text
  | .detail inner message => inner.text ++ ": " ++ message
  | .both first second => first.text ++ ": " ++ second.text
  | .after inner quoted => inner.text ++ " (after " ++ quoted ++ ")"

end AutoDeploy
