import Enclave.Text
import Enclave.World.Realm
import Enclave.Proofs.Flag.Folding
import Enclave.Proofs.Index.Filling
import Enclave.Proofs.Index.Height
import Enclave.Proofs.Index.Levels
import Enclave.Proofs.Index.Pruning
import Enclave.Proofs.Verdict.Sources
import Enclave.Proofs.Verdict.Typing
import Enclave.Proofs.Verdict.Credit
import Enclave.Proofs.World.Locality
import Enclave.Proofs.World.Openings
import Enclave.Proofs.World.Validation
import Enclave.Proofs.Region.Cycle
import Enclave.Proofs.Verdict.Walks
import Enclave.Proofs.World.Drafting
import Enclave.Proofs.World.Parentage
import Enclave.Proofs.World.Requests
import Enclave.Proofs.World.Contract
import Enclave.Proofs.World.Reloading
import Enclave.Proofs.World.RoundTrip
import Enclave.Proofs.World.Validity
import Enclave.Proofs.World.Saving
import Enclave.Proofs.World.Overlaps
import Enclave.Proofs.World.Removal
import Enclave.Proofs.Geometry.Enclosure
import Enclave.Proofs.Geometry.Contact
import Enclave.Proofs.Geometry.Extent
import Enclave.Proofs.Geometry.Motion
import Enclave.Proofs.Geometry.Overlap
import Enclave.Proofs.Index.Overfull
import Enclave.Proofs.Region.Standing
