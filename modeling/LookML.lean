import LookML.Main
import LookML.Proofs.Preservation
import LookML.Proofs.Restyling
import LookML.Proofs.Values
import LookML.Session
import LookML.Proofs.Breaks
import LookML.Proofs.Members
import LookML.Proofs.Rebuilding
import LookML.Proofs.Brackets
import LookML.Proofs.Scopes
import LookML.Proofs.Weaving
import LookML.Proofs.BlockTree
import LookML.Proofs.Reassembly
import LookML.Proofs.Fidelity
import LookML.Proofs.Idempotence
import LookML.Proofs.Occurrences
import LookML.Proofs.Atoms
import LookML.Proofs.Placement
import LookML.Proofs.Relabelling
import LookML.Proofs.Locality
import LookML.Proofs.Truncation
import LookML.Proofs.Annotations
import LookML.Proofs.Quieting
import LookML.Proofs.Relining
import LookML.Proofs.Insensitivity
import LookML.Proofs.Coverage
import LookML.Proofs.Resemblance
import LookML.Proofs.Opacity
import LookML.Proofs.Editing
import LookML.Proofs.KeyInsertion
import LookML.Proofs.MissingKey
import LookML.Proofs.BareReferences
import LookML.Proofs.Mentions
import LookML.Proofs.SegmentEdits
import LookML.Proofs.Substitution
import LookML.Proofs.BareJoins
import LookML.Proofs.Labelling
import LookML.Proofs.Separation
import LookML.Proofs.SpelledLines
import LookML.Proofs.Runs
import LookML.Proofs.Sections
import LookML.Proofs.BrokenNesting
import LookML.Proofs.Remarks
import LookML.Proofs.Renaming
import LookML.Proofs.Pointing
import LookML.Proofs.Locating
import LookML.Proofs.Respacing
import LookML.Proofs.Segmentation
