import Malamute.Core.LTS
import Malamute.Core.CursorList
import Malamute.Core.Partial
import Malamute.Core.Table
import Malamute.L1Codec.Proto
import Malamute.L1Codec.Wire
import Malamute.L2Queue.Mailbox
import Malamute.L2Engine.Delivery
import Malamute.L3Server.State
import Malamute.L3Server.Machine
import Malamute.L3Server.Actions
import Malamute.L3Server.Execute
import Malamute.L3Server.System
import Malamute.L3Server.Handlers
import Malamute.L3Server.Refine
import Malamute.L3Server.Registry
import Malamute.L3Server.Handled
import Malamute.L3Server.Moves
import Malamute.L3Server.Invariant
import Malamute.L2Engine.Release
import Malamute.L3Server.Lifetime
import Malamute.L3Server.Trace
import Malamute.L3Server.Malformed
import Malamute.L3Server.Unopened
import Malamute.Core.Ledger
import Malamute.L3Server.Lines
import Malamute.L3Server.Mailboxes
import Malamute.L3Server.Services
import Malamute.L3Server.Posted
import Malamute.L1Codec.Read
import Malamute.L3Server.Delivered
import Malamute.L2Engine.Order
import Malamute.L3Server.Subscriptions
import Malamute.L3Server.Status
import Malamute.L3Server.Directory
import Malamute.L3Server.Cancel
import Malamute.Core.BoundedQueues
import Malamute.L2Queue.Refine
import Malamute.Core.Watch
import Malamute.L3Server.References
import Malamute.L3Server.Vigil
import Malamute.L3Server.Nested
import Malamute.L3Server.Safe
import Malamute.L3Server.Settled
import Malamute.L4Client.Actor
import Malamute.L4Client.Machine
import Malamute.L4Client.Handled
import Malamute.L4Client.Steps
import Malamute.L4Client.Replies
import Malamute.L4Client.Deliveries
import Malamute.L3Server.Answers
import Malamute.L4Client.Link
import Malamute.L4Client.Confirmed
import Malamute.L4Client.Publishing
import Malamute.L3Server.Sessions
import Malamute.L4Client.Replayed
import Malamute.L4Client.Failures
import Malamute.L2Engine.Selectors
import Malamute.L2Queue.Calls
import Malamute.L3Server.Accounts
import Malamute.Core.RoundRobin
import Malamute.L3Server.Sharing
import Malamute.L3Server.Deregister
import Malamute.L2Queue.Limit
import Malamute.Core.Scan
import Malamute.L1Bits.Bits
import Malamute.L1Bits.Scans
import Malamute.L1Bits.Ones
import Malamute.L1Bits.Zeros
import Malamute.L3Server.Ending
import Malamute.L3Server.Completion
import Malamute.Core.Loop
import Malamute.L1Bits.Algebra
import Malamute.L1Bits.Count
import Malamute.L1Bits.Bitmaps
import Malamute.L5App.Session
import Malamute.L5App.Flow
import Malamute.L5App.Flush
import Malamute.Core.Monitor
import Malamute.L3Server.Conversation
import Malamute.L3Server.Streamed
import Malamute.L3Server.Rest
import Malamute.L3Server.Told
import Malamute.L3Server.Routing
import Malamute.L6System.Network
import Malamute.L6System.EndToEnd
import Malamute.Core.Log
import Malamute.L3Server.Channels
import Malamute.L6System.InOrder
import Malamute.L1Codec.Format
