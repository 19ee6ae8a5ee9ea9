import Backfield.CommandLine.Run
import Backfield.Main
import Backfield.Proofs.Batch.AddedTypes
import Backfield.Proofs.Batch.AliasClashes
import Backfield.Proofs.Batch.Cancellation
import Backfield.Proofs.Batch.Independence
import Backfield.Proofs.Batch.Merging
import Backfield.Proofs.Batch.Owners
import Backfield.Proofs.Batch.Polling
import Backfield.Proofs.Batch.Regeneration
import Backfield.Proofs.Batch.Reopening
import Backfield.Proofs.Batch.Repeats
import Backfield.Proofs.Batch.Spacing
import Backfield.Proofs.Binding.SearchOrder
import Backfield.Proofs.Binding.Shadowing
import Backfield.Proofs.CommandLine.Repetition
import Backfield.Proofs.Delivery.Losses
import Backfield.Proofs.Delivery.Placement
import Backfield.Proofs.Delivery.Refusal
import Backfield.Proofs.Delivery.Validation
import Backfield.Proofs.Layout.OnePass
import Backfield.Proofs.Layout.RoundTrip
import Backfield.Proofs.Scan.Classes
import Backfield.Proofs.Scan.Failures
import Backfield.Proofs.Scan.Members
import Backfield.Proofs.Settings.Listing
import Backfield.Proofs.Source.Conditionals
import Backfield.Proofs.Source.Directories
import Backfield.Proofs.Source.Identity
import Backfield.Proofs.Source.UsingMeanings
