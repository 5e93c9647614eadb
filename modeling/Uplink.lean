import Uplink.Agenda
import Uplink.Certificate
import Uplink.CommandLine
import Uplink.Config.Basic
import Uplink.Config.Printing
import Uplink.Config.Reading
import Uplink.Debouncer.Basic
import Uplink.Debouncer.Run
import Uplink.Delivery.Packets
import Uplink.Delivery.Publishers
import Uplink.Delivery.Tracker
import Uplink.Device
import Uplink.Error
import Uplink.Filter
import Uplink.Gateway.Basic
import Uplink.Gateway.Inbound
import Uplink.Gateway.Registration
import Uplink.Gateway.Turn
import Uplink.Gzip.Checksum
import Uplink.Gzip.Inflate
import Uplink.Gzip.Member
import Uplink.Json.Reader
import Uplink.Json.Value
import Uplink.Json.Writer
import Uplink.Link.Broker
import Uplink.Link.Client
import Uplink.Link.Error
import Uplink.Link.Event
import Uplink.Link.Policy
import Uplink.Listener
import Uplink.Logging
import Uplink.Loopback
import Uplink.Main
import Uplink.Message
import Uplink.Number.Binary
import Uplink.Number.Layout
import Uplink.Number.Shortest
import Uplink.Options
import Uplink.Payload.Basic
import Uplink.Payload.Binary
import Uplink.Payload.Codec
import Uplink.Payload.Error
import Uplink.Payload.Json
import Uplink.Payload.Reading
import Uplink.Pool.Basic
import Uplink.Pool.Run
import Uplink.Proofs.Agenda
import Uplink.Proofs.Certificate
import Uplink.Proofs.Certificate.Contents
import Uplink.Proofs.Debouncer.Flushes
import Uplink.Proofs.Delivery.Early
import Uplink.Proofs.Delivery.Pairing
import Uplink.Proofs.Delivery.Tickets
import Uplink.Proofs.Delivery.Tracking
import Uplink.Proofs.Delivery.Verdict
import Uplink.Proofs.Gateway.Announcer
import Uplink.Proofs.Gateway.Calls
import Uplink.Proofs.Gateway.Calm
import Uplink.Proofs.Gateway.Course
import Uplink.Proofs.Gateway.Events
import Uplink.Proofs.Gateway.Farewell
import Uplink.Proofs.Gateway.Filters
import Uplink.Proofs.Gateway.Frames
import Uplink.Proofs.Gateway.Freshness
import Uplink.Proofs.Gateway.History
import Uplink.Proofs.Gateway.Keeping
import Uplink.Proofs.Gateway.Outlook
import Uplink.Proofs.Gateway.Reconciliation
import Uplink.Proofs.Gateway.Refusals
import Uplink.Proofs.Gateway.Registrations
import Uplink.Proofs.Gateway.Replies
import Uplink.Proofs.Gateway.Rounds
import Uplink.Proofs.Gateway.Routing
import Uplink.Proofs.Gateway.Settling
import Uplink.Proofs.Gateway.Shutdown
import Uplink.Proofs.Gateway.Standing
import Uplink.Proofs.Gateway.Stillness
import Uplink.Proofs.Gateway.Turns
import Uplink.Proofs.Gateway.Upkeep
import Uplink.Proofs.Gzip.Lossless
import Uplink.Proofs.Json.Doubles
import Uplink.Proofs.Json.Numbers
import Uplink.Proofs.Json.Values
import Uplink.Proofs.Link.Attempts
import Uplink.Proofs.Link.Confirmation
import Uplink.Proofs.Link.Journey
import Uplink.Proofs.Link.Timetable
import Uplink.Proofs.Link.Topics
import Uplink.Proofs.Number.Rounding
import Uplink.Proofs.Number.Shortest
import Uplink.Proofs.Options
import Uplink.Proofs.Payload.Arrival
import Uplink.Proofs.Payload.FieldOrder
import Uplink.Proofs.Payload.JsonForm
import Uplink.Proofs.Payload.Readability
import Uplink.Proofs.Payload.Relay
import Uplink.Proofs.Payload.RoundTrip
import Uplink.Proofs.Payload.Size
import Uplink.Proofs.Payload.Truncation
import Uplink.Proofs.Payload.Unpacking
import Uplink.Proofs.Pool.Accounts
import Uplink.Proofs.Pool.Dismissal
import Uplink.Proofs.Pool.Jobs
import Uplink.Proofs.Pool.Order
import Uplink.Proofs.Pool.Workers
import Uplink.Proofs.Request.Answers
import Uplink.Proofs.Request.Outcomes
import Uplink.Proofs.Subscription.Recipients
import Uplink.Proofs.Subscription.Registry
import Uplink.Proofs.Text.Base64
import Uplink.Proofs.Text.Fronts
import Uplink.Proofs.Text.Levels
import Uplink.Proofs.Text.Redaction
import Uplink.Proofs.Text.Report
import Uplink.Proofs.Topic.Covering
import Uplink.Proofs.Topic.Filters
import Uplink.Proofs.Topic.Parts
import Uplink.Proofs.Topic.Reading
import Uplink.Proofs.Wire.Message
import Uplink.Proofs.Wire.Spelling
import Uplink.Qos
import Uplink.Request
import Uplink.SortedMap
import Uplink.Subscription
import Uplink.Text.Base64
import Uplink.Text.Blank
import Uplink.Text.Levels
import Uplink.Text.Redaction
import Uplink.Text.Utf8
import Uplink.Time.Calendar
import Uplink.Time.Rfc3339
import Uplink.Toml.Reader
import Uplink.Toml.Scalar
import Uplink.Toml.Value
import Uplink.Toml.Writer
import Uplink.Topic
import Uplink.Transport
import Uplink.Url.Address
import Uplink.Url.Host
import Uplink.Url.Punycode
import Uplink.Wire.Field
import Uplink.Wire.Varint
