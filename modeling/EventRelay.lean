import EventRelay.Config.Environment
import EventRelay.Json.Reader
import EventRelay.Json.Writer
import EventRelay.Proofs.Log.History
import EventRelay.Proofs.Admission
import EventRelay.Proofs.Compensation
import EventRelay.Proofs.Publication
import EventRelay.Proofs.Capacity
import EventRelay.Proofs.Failure
import EventRelay.Proofs.Delivery.Once
import EventRelay.Proofs.Delivery.Traffic
import EventRelay.Proofs.Delivery.Subscribers
import EventRelay.Proofs.Delivery.Order
import EventRelay.Proofs.Registry.Flat
import EventRelay.Proofs.Closing
import EventRelay.Proofs.Closing.First
import EventRelay.Proofs.Sharing
import EventRelay.Proofs.History
import EventRelay.Proofs.Registry.Exchange
import EventRelay.Proofs.Registry.Accounting
import EventRelay.Proofs.Registry.Alone
import EventRelay.Proofs.Registry.Touches
import EventRelay.Proofs.Registry.Queue
import EventRelay.Proofs.Delivery.Deeds
import EventRelay.Proofs.Delivery.Waiting
import EventRelay.Proofs.Delivery.Attachment
import EventRelay.Proofs.Log.Lifetime
import EventRelay.Proofs.Log.Readers
import EventRelay.Proofs.Log.Offsets
import EventRelay.Proofs.Text.Utf8
import EventRelay.Proofs.Event.Canonical
import EventRelay.Proofs.Event.RoundTrip
import EventRelay.Proofs.Event.Acceptance
import EventRelay.Proofs.Delivery.Alive
import EventRelay.Proofs.Delivery.Mirror
import EventRelay.Proofs.Burst
import EventRelay.Proofs.Delivery.Senders
import EventRelay.Proofs.Delivery.EndOfStream
import EventRelay.Proofs.Delivery.LaneLoop
import EventRelay.Proofs.Delivery.Streaming
import EventRelay.Proofs.Delivery.Serving
import EventRelay.Proofs.Publication.Item
import EventRelay.Proofs.Publication.Batch
import EventRelay.Proofs.Event.Content
import EventRelay.Proofs.Log.Standing
import EventRelay.Proofs.Config.Environment
import EventRelay.Proofs.Json.Events
