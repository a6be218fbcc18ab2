import AutoDeploy.Lib.Rows
import AutoDeploy.Lib.Runs
import AutoDeploy.Lib.Calls
import AutoDeploy.Lib.Table
import AutoDeploy.Lib.Sha256
import AutoDeploy.Lib.Prefixed
import AutoDeploy.Lib.Aead
import AutoDeploy.Deployment
import AutoDeploy.Lib.Result
import AutoDeploy.Lib.Utf8
import AutoDeploy.Queue
import AutoDeploy.Traefik
import AutoDeploy.Errors
import AutoDeploy.Store.Schema
import AutoDeploy.Store.Writes
import AutoDeploy.Store.Deployments
import AutoDeploy.Store.Access
import AutoDeploy.Store.Claim
import AutoDeploy.Store.Lease
import AutoDeploy.Store.Activation
import AutoDeploy.Store.Closure
import AutoDeploy.Store.Resolution
import AutoDeploy.Store.RouteHeads
import AutoDeploy.Store.Report
import AutoDeploy.Store.Bindings
import AutoDeploy.Protocol.Effects
import AutoDeploy.Protocol.Occupancy
import AutoDeploy.Protocol.Activations
import AutoDeploy.Protocol.Routes
import AutoDeploy.Protocol.Invariant
import AutoDeploy.Protocol.Statements
import AutoDeploy.Protocol.Refinement.Lease
import AutoDeploy.Protocol.Refinement.Claim
import AutoDeploy.Protocol.Refinement.Activation
import AutoDeploy.Protocol.Refinement.Closure
import AutoDeploy.Protocol.Refinement.Resolution
import AutoDeploy.Protocol.Histories
import AutoDeploy.Protocol.Reconciliations
import AutoDeploy.Protocol.Refinement.Report
import AutoDeploy.Protocol.Refinement.RouteHeads
import AutoDeploy.Protocol.System
import AutoDeploy.Protocol.Clock
import AutoDeploy.Protocol.Theorems.Leases
import AutoDeploy.Protocol.Theorems.Routes
import AutoDeploy.Protocol.Theorems.Replay
import AutoDeploy.Protocol.Theorems.Cancellation
import AutoDeploy.Lib.Interleaving
import AutoDeploy.Lib.Threads
import AutoDeploy.Lib.StopAndWait
import AutoDeploy.Lib.Files
import AutoDeploy.Lib.Instant
import AutoDeploy.Deployment.History
import AutoDeploy.Deployment.Repository
import AutoDeploy.Deployment.Log
import AutoDeploy.Deployment.Writers
import AutoDeploy.Protocol.Frames
import AutoDeploy.Protocol.Access
import AutoDeploy.Protocol.Acceptance
import AutoDeploy.Protocol.Authority
import AutoDeploy.Protocol.Theorems.Authority
import AutoDeploy.Protocol.Theorems.Expiry
import AutoDeploy.Protocol.Theorems.Lifecycles
import AutoDeploy.Protocol.Theorems.Progress
import AutoDeploy.Agent.FenceStore
import AutoDeploy.Agent.Fencing
import AutoDeploy.Agent.FenceDamage
import AutoDeploy.Agent.LeaseLoop
import AutoDeploy.Agent.Renewals
import AutoDeploy.Protocol.Theorems.Materialization
import AutoDeploy.Protocol.Theorems.Freezing
import AutoDeploy.Protocol.Theorems.Snapshots
import AutoDeploy.Protocol.Theorems.Reports
import AutoDeploy.Protocol.Theorems.Claims
import AutoDeploy.Protocol.Theorems.Discovery
import AutoDeploy.Protocol.Theorems.Revocation
import AutoDeploy.Protocol.Theorems.Resolution
import AutoDeploy.Protocol.Theorems.Declarations
import AutoDeploy.Checkout.Runner
import AutoDeploy.Checkout.Leases
import AutoDeploy.Checkout.Sequence
import AutoDeploy.Checkout.Cleanup
import AutoDeploy.Checkout.Agreement
import AutoDeploy.Checkout.Reservations
import AutoDeploy.Checkout.Requests
import AutoDeploy.Checkout.Withdrawals
import AutoDeploy.Checkout.Process
import AutoDeploy.Checkout.Growth
import AutoDeploy.Checkout.Turns
import AutoDeploy.Checkout.Tokens
import AutoDeploy.Checkout.Closing
import AutoDeploy.Checkout.Withdrawn
import AutoDeploy.Webhook.Push
import AutoDeploy.Webhook.Redelivery
import AutoDeploy.Crypto.Envelope
import AutoDeploy.Crypto.Binding
import AutoDeploy.Secret.Store
import AutoDeploy.Secret.Service
import AutoDeploy.Secret.Effects
import AutoDeploy.Secret.Ledger
import AutoDeploy.Secret.Versions
import AutoDeploy.Secret.History
import AutoDeploy.Secret.Rotation
import AutoDeploy.Secret.Rewraps
import AutoDeploy.Agent.Client
import AutoDeploy.Lib.Base64
import AutoDeploy.Enrollment.Registry
import AutoDeploy.Enrollment.Enroll
import AutoDeploy.Enrollment.Kept
import AutoDeploy.Agent.Authority
import AutoDeploy.Lib.Runes
import AutoDeploy.Lib.Json
import AutoDeploy.Agent.Post
import AutoDeploy.Secret.Materialization
import AutoDeploy.Secret.Delivery
import AutoDeploy.Auth.Schema
import AutoDeploy.Auth.Throttle
import AutoDeploy.Auth.Password
import AutoDeploy.Auth.Login
import AutoDeploy.Lib.TableSize
import AutoDeploy.Auth.Turns
import AutoDeploy.Auth.Steps
import AutoDeploy.Auth.Capacity
import AutoDeploy.Lib.Hmac
import AutoDeploy.Auth.Identities
import AutoDeploy.Auth.Built
import AutoDeploy.Auth.Admission
import AutoDeploy.Auth.Refusals
import AutoDeploy.Auth.Limits
import AutoDeploy.Auth.Sessions
import AutoDeploy.Auth.Delays
import AutoDeploy.Enrollment.Servers
import AutoDeploy.Enrollment.Lines
import AutoDeploy.Quota.Workspace
import AutoDeploy.Quota.Passes
import AutoDeploy.Lib.Forms
import AutoDeploy.Traefik.Documents
import AutoDeploy.Traefik.Verify
import AutoDeploy.Docker.HealthGate
import AutoDeploy.Lib.Words
import AutoDeploy.Contain.Leaf
import AutoDeploy.Contain.Limits
import AutoDeploy.Docker.Labels
import AutoDeploy.Docker.Run
import AutoDeploy.Docker.Ensure
import AutoDeploy.Docker.Build
import AutoDeploy.Agent.ScopedSecrets
import AutoDeploy.GitHub.Provider
import AutoDeploy.GitHub.Listing
import AutoDeploy.GitHub.Credentials
import AutoDeploy.Lib.Calendar
import AutoDeploy.Crypto.Serialization
import AutoDeploy.Traefik.Names
import AutoDeploy.Lib.Netip
import AutoDeploy.Web.ClientIP
import AutoDeploy.Lib.Unicode
import AutoDeploy.Protocol.Theorems.Hostnames
import AutoDeploy.Auth.Csrf
import AutoDeploy.Auth.MacUses
import AutoDeploy.Queue.Job
import AutoDeploy.Store.Digests
import AutoDeploy.Identity
import AutoDeploy.Lib.Paths
import AutoDeploy.Traefik.Files
import AutoDeploy.Traefik.Confinement
import AutoDeploy.Traefik.Atomic
import AutoDeploy.Lib.Yaml
import AutoDeploy.Traefik.Quoting
import AutoDeploy.Lib.Url
import AutoDeploy.Store.Sanitize
import AutoDeploy.Agent.FenceNames
import AutoDeploy.Checkout.SourceTree
import AutoDeploy.Docker.Dockerfile
import AutoDeploy.Crypto.Automaton
import AutoDeploy.Contain.SpawnService
import AutoDeploy.Lib.Revisions
import AutoDeploy.Checkout.Continuity
