import DualWrite.Event.Wire
import DualWrite.Main
import DualWrite.Pattern.Reader
import DualWrite.Proofs.Store.Reading
import DualWrite.Session.Basic
import DualWrite.Proofs.Store.Entities
import DualWrite.Proofs.Validation.Turn
import DualWrite.Proofs.Store.Holding
import DualWrite.Proofs.Store.Writing
import DualWrite.Proofs.Validation.Ascent
import DualWrite.Proofs.Validation.FullScan
import DualWrite.Proofs.Validation.Traffic
import DualWrite.Proofs.Event.Wire
import DualWrite.Proofs.Repair.Convergence
import DualWrite.Proofs.Store.Incremental
import DualWrite.Proofs.Validation.Overtaking
import DualWrite.Proofs.Validation.Tailing
import DualWrite.Proofs.Pool.Halves
import DualWrite.Proofs.Pool.Lockstep
import DualWrite.Proofs.Pool.Primacy
import DualWrite.Proofs.Pool.Atomicity
import DualWrite.Proofs.Control.Authority
import DualWrite.Proofs.Control.Calls
import DualWrite.Proofs.Control.Bookkeeping
import DualWrite.Proofs.Control.Shutdown
import DualWrite.Proofs.Validation.Evidence
import DualWrite.Proofs.Control.Provenance
import DualWrite.Proofs.Bus.Exchange
import DualWrite.Proofs.Bus.Accounts
import DualWrite.Proofs.Bus.Conservation
import DualWrite.Proofs.Repair.EachOnce
import DualWrite.Proofs.Http.Facade
import DualWrite.Proofs.Settings.RoundTrip
import DualWrite.Proofs.Repair.Confluence
import DualWrite.Proofs.Validation.IncrementalScan
import DualWrite.Proofs.Validation.Failures
import DualWrite.Proofs.Validation.Polling
import DualWrite.Proofs.Validation.Sequential
import DualWrite.Proofs.Validation.Stopping
import DualWrite.Proofs.Validation.SinglePass
import DualWrite.Proofs.Json.Grammar
import DualWrite.Proofs.Json.Spelling
import DualWrite.Proofs.Bus.Attempts
import DualWrite.Proofs.Event.Members
import DualWrite.Proofs.Settings.Layers
import DualWrite.Proofs.Validation.Lookup
