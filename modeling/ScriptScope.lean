import ScriptScope.DebugInfo.Json
import ScriptScope.Frame
import ScriptScope.Main
import ScriptScope.Proofs.Frame.Walk
import ScriptScope.Proofs.Script.Assembly
import ScriptScope.Proofs.Session.Handles
import ScriptScope.Storage.Json
import ScriptScope.Proofs.Listing.Cut
import ScriptScope.Proofs.Listing.Relocation
import ScriptScope.Proofs.Frame.Indexing
import ScriptScope.Proofs.Session.Summary
import ScriptScope.Proofs.Session.Expansion
import ScriptScope.Proofs.DebugInfo.RoundTrip
import ScriptScope.Proofs.Frame.Attachment
import ScriptScope.Proofs.Frame.Locals
import ScriptScope.Proofs.Session.ReadThrough
import ScriptScope.Proofs.Frame.Shadowing
import ScriptScope.Proofs.Command.Disassembly
import ScriptScope.Proofs.Json.Exchange
import ScriptScope.Proofs.DebugInfo.ActivePoint
import ScriptScope.Proofs.DebugInfo.Claimants
import ScriptScope.Proofs.Frame.Atomicity
import ScriptScope.Proofs.Frame.Walking
import ScriptScope.Proofs.Listing.Lookup
import ScriptScope.Proofs.Frame.StorageEntries
import ScriptScope.Proofs.Listing.Breaks
import ScriptScope.Proofs.Script.Shortfall
import ScriptScope.Proofs.DebugInfo.Faults
import ScriptScope.Proofs.Listing.Contracts
import ScriptScope.Proofs.Listing.SystemCalls
import ScriptScope.Proofs.Storage.Writes
import ScriptScope.Proofs.Listing.AddressColumn
import ScriptScope.Proofs.Command.Outcomes
import ScriptScope.Proofs.Settings.Documents
import ScriptScope.Proofs.Session.MapKeys
import ScriptScope.Proofs.Script.Wrapping
