import ContentMounts.Pool.Acquire
import ContentMounts.Pool.Default
import ContentMounts.Pool.Navigation
import ContentMounts.Pool.Sweep
import ContentMounts.Host.Edit
import ContentMounts.Resource.File
import ContentMounts.Proofs.Alias.Dots
import ContentMounts.Proofs.Alias.OwnSpelling
import ContentMounts.Proofs.Alias.Probes
import ContentMounts.Proofs.Alias.SameObject
import ContentMounts.Proofs.Archive.Descent
import ContentMounts.Proofs.Archive.Hostile
import ContentMounts.Proofs.Archive.Kind
import ContentMounts.Proofs.Archive.Spelling
import ContentMounts.Proofs.Host.Folding
import ContentMounts.Proofs.Host.Parts
import ContentMounts.Proofs.Path.Collapse
import ContentMounts.Proofs.Pool.Conservation
import ContentMounts.Proofs.Pool.EntryNames
import ContentMounts.Proofs.Pool.FailedAcquire
import ContentMounts.Proofs.Pool.Registration
import ContentMounts.Proofs.Pool.SweepOutcome
import ContentMounts.Proofs.Provider.OneOpen
import ContentMounts.Proofs.Resource.Interchange
import ContentMounts.Proofs.Resource.Literal
