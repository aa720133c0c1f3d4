import Silius.Primitives
import Silius.Mempool.Index
import Silius.Mempool.Consistency
import Silius.Mempool.Sort
import Silius.Memory.Mempool
import Silius.Memory.Invariant
import Silius.Database.Tx
import Silius.Database.Mempool
import Silius.Database.Reputation
import Silius.Database.Atomicity
import Silius.Equivalence
import Silius.Removal
import Silius.Validate.Entities
import Silius.Validate.CallGas
import Silius.Services.SanityCheck
import Silius.Services.Validation
import Silius.Faults
