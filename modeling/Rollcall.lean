import Rollcall.Delivery.Post
import Rollcall.Host
import Rollcall.Membership.Config
import Rollcall.PublicAddress
import Rollcall.Registry.Config
import Rollcall.Registry.Timeline
import Rollcall.Proofs.Mirror
import Rollcall.Proofs.RoleTable
import Rollcall.Proofs.Delivery.Order
import Rollcall.Proofs.Registry.Traffic
import Rollcall.Proofs.Registry.LastWord
import Rollcall.Proofs.Timeline
import Rollcall.Proofs.Registry.Overdue
import Rollcall.Proofs.Registry.Tenure
import Rollcall.Proofs.Registry.Sweep
import Rollcall.Proofs.Delivery.Chronicle
import Rollcall.Proofs.Membership.Attendance
import Rollcall.Proofs.Membership.Call
import Rollcall.Proofs.Membership.Farewell
import Rollcall.Proofs.Membership.Retry
import Rollcall.Proofs.Membership.Dialogue
import Rollcall.Proofs.Membership.Alone
import Rollcall.Proofs.Http.Form
import Rollcall.Proofs.Http.Target
import Rollcall.Proofs.Json.Literal
import Rollcall.Proofs.Json.Token
import Rollcall.Proofs.Json.Record
import Rollcall.Proofs.Net.IPv4
import Rollcall.Proofs.Net.IPv6
import Rollcall.Proofs.Registration
import Rollcall.Proofs.Patch
import Rollcall.Proofs.Link.Request
import Rollcall.Proofs.Link.Service
import Rollcall.Proofs.Link.Table
import Rollcall.Proofs.Link.Facade
import Rollcall.Proofs.Net.Address
import Rollcall.Proofs.Json.Length
import Rollcall.Proofs.Link.Contact
import Rollcall.Proofs.Registry.Refusal
import Rollcall.Proofs.Link.Key
import Rollcall.Proofs.Link.KeyCheck
import Rollcall.Proofs.Delivery.Receipt
import Rollcall.Proofs.Registry.Clearance
import Rollcall.Proofs.Registry.Duplicate
import Rollcall.Proofs.Delivery.Announcement
import Rollcall.Proofs.Delivery.Backlog
import Rollcall.Proofs.Delivery.Outcome
import Rollcall.Proofs.Cache.Contents
import Rollcall.Proofs.Cache.Shelf
import Rollcall.Proofs.Registry.Independence
import Rollcall.Proofs.PatchEndpoint
import Rollcall.Proofs.Link.RoleQuery
import Rollcall.Proofs.Tolerance
import Rollcall.Proofs.PublicAddress
import Rollcall.Proofs.Requirements
import Rollcall.Proofs.Config.Override
import Rollcall.Proofs.Config.Limits
