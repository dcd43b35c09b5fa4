import Interlock.Script.Run
import Interlock.Proofs.Tables
import Interlock.Proofs.Hierarchy.Views
import Interlock.Proofs.Hierarchy.Shifts
import Interlock.Proofs.Hierarchy.Outstanding
import Interlock.Proofs.Hierarchy.Slots
import Interlock.Proofs.Hierarchy.HeldStack
import Interlock.Proofs.Hierarchy.Waiting
import Interlock.Proofs.Queue.Moves
import Interlock.Proofs.Queue.Wakeups
import Interlock.Proofs.History
import Interlock.Proofs.Queue.Order
import Interlock.Proofs.Cache.Moves
import Interlock.Proofs.Cache.Exclusion
import Interlock.Proofs.Cache.Reentry
import Interlock.Proofs.Cache.Record
import Interlock.Proofs.Cache.Courses
import Interlock.Proofs.Cache.Order
import Interlock.Proofs.Cache.Preference
import Interlock.Proofs.Cache.Queued
import Interlock.Proofs.Hierarchy.Ledger
import Interlock.Proofs.Hierarchy.Ownership
import Interlock.Proofs.Hierarchy.Stuck
import Interlock.Proofs.Registry.Ranks
import Interlock.Proofs.Registry.Catalog
import Interlock.Proofs.Registry.Chronicle
import Interlock.Proofs.Registry.Courses
import Interlock.Proofs.Registry.Refinement
import Interlock.Proofs.Registry.Refusal
import Interlock.Proofs.Related
import Interlock.Proofs.Hierarchy.Parallel
import Interlock.Proofs.Hierarchy.Beside
import Interlock.Proofs.Hierarchy.Agreement
import Interlock.Proofs.Hierarchy.Recovery
import Interlock.Proofs.Hierarchy.Rejection
import Interlock.Proofs.Panic.Calls
import Interlock.Proofs.Panic.Objects
import Interlock.Proofs.Panic.Locks
import Interlock.Proofs.Panic.Worlds
import Interlock.Proofs.Panic.Unwinding
import Interlock.Proofs.Handles.Plain
import Interlock.Proofs.Handles.Moves
import Interlock.Proofs.Handles.Changes
import Interlock.Proofs.Handles.Refinement
import Interlock.Proofs.Hierarchy.BatchDrop
import Interlock.Proofs.Registry.Callback
import Interlock.Proofs.Registry.Balance
import Interlock.Proofs.Stack.Moves
import Interlock.Proofs.Stack.Arrivals
import Interlock.Proofs.Stack.Order
import Interlock.Proofs.Stack.Building
import Interlock.Proofs.Toml.Signed
import Interlock.Proofs.Toml.Numerals
import Interlock.Proofs.Toml.Written
import Interlock.Proofs.Toml.Misfits
import Interlock.Proofs.Toml.Sections
import Interlock.Proofs.Config.RoundTrip
import Interlock.Proofs.Config.Partial
import Interlock.Proofs.Cells.Values
import Interlock.Proofs.Cells.Moves
import Interlock.Proofs.Cells.Waiting
import Interlock.Proofs.Cells.Record
import Interlock.Proofs.Cells.Order
import Interlock.Proofs.Exhaustion.Queues
import Interlock.Proofs.Exhaustion.Stacks
import Interlock.Proofs.Exhaustion.Caches
import Interlock.Proofs.Exhaustion.Locks
import Interlock.Proofs.Exhaustion.Inserts
import Interlock.Proofs.Exhaustion.Objects
import Interlock.Proofs.Sites
import Interlock.Proofs.Cells.Comparison
import Interlock.Proofs.Exhaustion.Worlds
import Interlock.Proofs.Exhaustion.Traceless
import Interlock.Proofs.Copies.Alone
import Interlock.Proofs.Copies.Copying
import Interlock.Proofs.Copies.Isolation
