import CertEnrollment.Authority.Certificate
import CertEnrollment.Authority.Challenge
import CertEnrollment.Authority.Client
import CertEnrollment.Authority.Download
import CertEnrollment.Authority.Error
import CertEnrollment.Authority.Status
import CertEnrollment.Cache.DomainSet
import CertEnrollment.Cache.Prefetch
import CertEnrollment.Cache.Store
import CertEnrollment.Calendar
import CertEnrollment.Data.Distinct
import CertEnrollment.Data.Record
import CertEnrollment.Data.SortedMap
import CertEnrollment.Data.Tree
import CertEnrollment.Data.Value
import CertEnrollment.Decimal.Double
import CertEnrollment.Decimal.Shortest
import CertEnrollment.Dns.Error
import CertEnrollment.Dns.Options
import CertEnrollment.Dns.Provider
import CertEnrollment.Dns.Resolve
import CertEnrollment.Dns.Router
import CertEnrollment.Dns.Zone
import CertEnrollment.Dns.ZoneStore
import CertEnrollment.Encoding.Base64
import CertEnrollment.Encoding.Der
import CertEnrollment.Encoding.Pem
import CertEnrollment.Enrollment.Bundle
import CertEnrollment.Enrollment.Config
import CertEnrollment.Enrollment.Error
import CertEnrollment.Enrollment.Flow
import CertEnrollment.Enrollment.Handler
import CertEnrollment.Enrollment.Locks
import CertEnrollment.Enrollment.Policy
import CertEnrollment.Enrollment.Provision
import CertEnrollment.Enrollment.Request
import CertEnrollment.Enrollment.Response
import CertEnrollment.Enrollment.Schedule
import CertEnrollment.Enrollment.Workflow
import CertEnrollment.Http
import CertEnrollment.Interaction
import CertEnrollment.Json.Reader
import CertEnrollment.Json.Writer
import CertEnrollment.Scanner
import CertEnrollment.Store.Hash
import CertEnrollment.Store.Options
import CertEnrollment.Store.Redis
import CertEnrollment.Text.Blank
import CertEnrollment.Text.CaseTable
import CertEnrollment.Text.Digits
import CertEnrollment.Text.Lowercase
import CertEnrollment.Text.Pieces
import CertEnrollment.Text.Utf8
import CertEnrollment.Toml.Document
import CertEnrollment.Toml.Scalar
import CertEnrollment.Toml.Table
import CertEnrollment.Toml.Text
import CertEnrollment.Url.Address
import CertEnrollment.Url.Basic
import CertEnrollment.Url.Form
import CertEnrollment.Url.Host
import CertEnrollment.Url.Percent
import CertEnrollment.X509.Basic
import CertEnrollment.X509.Certificate
import CertEnrollment.X509.Request
import CertEnrollment.Proofs.Transcript
import CertEnrollment.Proofs.Obedience
import CertEnrollment.Proofs.Data.Sameness
import CertEnrollment.Proofs.Enrollment.Stages
import CertEnrollment.Proofs.Enrollment.RecordChanges
import CertEnrollment.Proofs.Json.Leaves
import CertEnrollment.Proofs.Locks.Exclusion
import CertEnrollment.Proofs.Json.Reading
import CertEnrollment.Proofs.Cache.Entries
import CertEnrollment.Proofs.Enrollment.Progress
import CertEnrollment.Proofs.Locks.Queues
import CertEnrollment.Proofs.Text.Canonical
import CertEnrollment.Proofs.Text.Decoding
import CertEnrollment.Proofs.Enrollment.System
import CertEnrollment.Proofs.Enrollment.Requests
import CertEnrollment.Proofs.Enrollment.OneIssuance
import CertEnrollment.Proofs.Dns.RecordMaps
import CertEnrollment.Proofs.Dns.Slots
import CertEnrollment.Proofs.Dns.MoveToFront
import CertEnrollment.Proofs.Enrollment.StoreRestored
import CertEnrollment.Proofs.Text.Labels
import CertEnrollment.Proofs.Dns.Placement
import CertEnrollment.Proofs.Enrollment.SameHost
import CertEnrollment.Proofs.Enrollment.Protocol
import CertEnrollment.Proofs.Locks.Waiting
import CertEnrollment.Proofs.Cache.Keys
import CertEnrollment.Proofs.Enrollment.Provenance
import CertEnrollment.Proofs.Enrollment.Course
import CertEnrollment.Proofs.Enrollment.Freshness
import CertEnrollment.Proofs.Url.Forms
import CertEnrollment.Proofs.Enrollment.Orders
import CertEnrollment.Proofs.Enrollment.FirstFailure
import CertEnrollment.Proofs.Enrollment.CacheEffects
import CertEnrollment.Proofs.Dns.Operations
import CertEnrollment.Proofs.Enrollment.Challenges
import CertEnrollment.Proofs.Enrollment.Confinement
import CertEnrollment.Proofs.Enrollment.Faults
import CertEnrollment.Proofs.Alike
import CertEnrollment.Proofs.Turns
import CertEnrollment.Proofs.Store.Requests
import CertEnrollment.Proofs.Dns.Together
import CertEnrollment.Proofs.Dns.HostSlots
import CertEnrollment.Proofs.Dns.KeptBackends
import CertEnrollment.Proofs.Cache.TimedMap
import CertEnrollment.Proofs.Enrollment.Polling
import CertEnrollment.Proofs.Enrollment.CacheTrouble
import CertEnrollment.Proofs.Url.Appended
import CertEnrollment.Proofs.Dns.Listing
import CertEnrollment.Proofs.Dns.HostedZone
import CertEnrollment.Proofs.Dns.HostedAnswers
import CertEnrollment.Proofs.Dns.HostedChanges
import CertEnrollment.Proofs.Json.Cells
import CertEnrollment.Proofs.Authority.Exchanges
import CertEnrollment.Proofs.Authority.Refusals
import CertEnrollment.Proofs.Authority.Responses
import CertEnrollment.Proofs.Enrollment.Checks
import CertEnrollment.Proofs.Encoding.Base64
import CertEnrollment.Proofs.Encoding.Blocks
import CertEnrollment.Proofs.Enrollment.RequestForms
import CertEnrollment.Proofs.Authority.Records
import CertEnrollment.Proofs.Encoding.LeadingBlock
import CertEnrollment.Proofs.Enrollment.Bundles
import CertEnrollment.Proofs.Enrollment.RequestedNames
import CertEnrollment.Proofs.Enrollment.AllowLists
import CertEnrollment.Proofs.Url.Escapes
import CertEnrollment.Proofs.Url.Servers
import CertEnrollment.Proofs.Store.Addresses
import CertEnrollment.Proofs.Text.Trimming
import CertEnrollment.Proofs.Cache.DomainSets
import CertEnrollment.Proofs.Dns.NormalForms
import CertEnrollment.Proofs.Locks.Tracking
