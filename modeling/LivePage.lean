import LivePage.Options.Reader
import LivePage.Script.Run
import LivePage.Value.Written
import LivePage.Proofs.Page.Edit
import LivePage.Proofs.Page.Insertion
import LivePage.Proofs.Page.Sweep
import LivePage.Proofs.Page.Replacement
import LivePage.Proofs.Page.Document
import LivePage.Proofs.Page.Printing
import LivePage.Proofs.Page.Mirror
import LivePage.Proofs.Page.Reclamation
import LivePage.Proofs.Markup.Entities
import LivePage.Proofs.Markup.Roundtrip
import LivePage.Proofs.Markup.Insertions
import LivePage.Proofs.Run.Basic
import LivePage.Proofs.Run.Reading
import LivePage.Proofs.Run.Evolving
import LivePage.Proofs.Run.Change
import LivePage.Proofs.Run.Living
import LivePage.Proofs.World.Ownership
import LivePage.Proofs.Run.Murmur
import LivePage.Proofs.Run.Emission
import LivePage.Proofs.World.Sound
import LivePage.Proofs.Mount.Basic
import LivePage.Proofs.Mount.Built
import LivePage.Proofs.Mount.Placing
import LivePage.Proofs.Mount.Binding
import LivePage.Proofs.Mount.Grown
import LivePage.Proofs.Mount.Opening
import LivePage.Proofs.Mount.Contents
import LivePage.Proofs.Mount.Filling
import LivePage.Proofs.Mount.Realization
import LivePage.Proofs.Mount.Releasing
import LivePage.Proofs.Mount.Killing
import LivePage.Proofs.Mount.Hole
import LivePage.Proofs.Mount.Renewal
import LivePage.Proofs.Mount.Lasting
import LivePage.Proofs.Mount.Sealed
import LivePage.Proofs.Mount.Refilling
import LivePage.Proofs.Mount.Mounting
import LivePage.Proofs.Mount.Teardown
import LivePage.Proofs.Mount.Laying
import LivePage.Proofs.Mount.Static
import LivePage.Proofs.Mount.Attribute
import LivePage.Proofs.Mount.Memory
import LivePage.Proofs.Mount.Uptake
import LivePage.Proofs.Mount.Failing
import LivePage.Proofs.Network.Building
import LivePage.Proofs.Run.Telling
import LivePage.Proofs.Store.Basic
import LivePage.Proofs.Store.Agreement
import LivePage.Proofs.Store.Reentry
import LivePage.Proofs.Flow.History
import LivePage.Proofs.Flow.Orderly
import LivePage.Proofs.Flow.Tally
import LivePage.Proofs.Flow.Accounting
import LivePage.Proofs.Flow.Interleaving
import LivePage.Proofs.Flow.Settling
import LivePage.Proofs.Page.Refusal
import LivePage.Proofs.Mount.Discarding
import LivePage.Proofs.Rebuild.Amid
import LivePage.Proofs.Rebuild.Changes
import LivePage.Proofs.Page.Between
import LivePage.Proofs.Rebuild.Abiding
import LivePage.Proofs.Rebuild.Programs
import LivePage.Proofs.Rebuild.Rounds
import LivePage.Proofs.Rebuild.Reached
import LivePage.Proofs.Rebuild.Folding
import LivePage.Proofs.Calls.Tree
import LivePage.Proofs.Calls.Record
import LivePage.Proofs.Calls.Traced
import LivePage.Proofs.Calls.Sound
import LivePage.Proofs.Calls.Deeds
import LivePage.Proofs.Calls.Delivery
import LivePage.Proofs.Calls.Guarding
import LivePage.Proofs.Calls.Outcome
import LivePage.Proofs.Page.Placement
import LivePage.Proofs.Mount.Splicing
import LivePage.Proofs.Markup.Scanner
import LivePage.Proofs.Markup.Places
import LivePage.Proofs.Markup.Uses
import LivePage.Proofs.Mount.Walk
import LivePage.Proofs.Mount.Succeeding
import LivePage.Proofs.Page.Nesting
import LivePage.Proofs.Mount.Tidy
import LivePage.Proofs.Mount.Upkeep
import LivePage.Proofs.Mount.Unresolvable
import LivePage.Proofs.Mount.Rooms
import LivePage.Proofs.Rebuild.AtRest
import LivePage.Proofs.Rebuild.Edited
import LivePage.Proofs.Rebuild.Outcomes
import LivePage.Proofs.Chronicle.Basic
import LivePage.Proofs.Chronicle.Changes
import LivePage.Proofs.Chronicle.Emissions
import LivePage.Proofs.Chronicle.Mounting
import LivePage.Proofs.Chronicle.Steps
import LivePage.Proofs.Chronicle.Holders
import LivePage.Proofs.Chronicle.Moments
import LivePage.Proofs.Chronicle.Lifetime
import LivePage.Proofs.Node.Parts
import LivePage.Proofs.Node.Building
import LivePage.Proofs.Node.Collapsing
import LivePage.Proofs.Flow.Conditional
import LivePage.Proofs.World.Guards
import LivePage.Proofs.Page.Growth
