import LayeredMemory.Proofs.Layer.Host
import LayeredMemory.Layer.Stack
import LayeredMemory.Layer.Arena
import LayeredMemory.Proofs.Heap.Canonical
import LayeredMemory.Proofs.Heap.Verdict
import LayeredMemory.Proofs.Heap.Inert
import LayeredMemory.Proofs.Heap.Chunks
import LayeredMemory.Proofs.Heap.NextFit
import LayeredMemory.Proofs.Heap.Resize
import LayeredMemory.Proofs.Heap.Registration
import LayeredMemory.Proofs.Heap.Expansion
import LayeredMemory.Proofs.Heap.Thrift
import LayeredMemory.Proofs.Heap.Reclaim
import LayeredMemory.Proofs.Cache.Isolation
import LayeredMemory.Proofs.Cache.Ledger
import LayeredMemory.Proofs.Cache.Replacement
import LayeredMemory.Proofs.Cache.Supply
import LayeredMemory.Proofs.Cache.Damage
import LayeredMemory.Proofs.Layer.Shared
import LayeredMemory.Proofs.Layer.Usage
import LayeredMemory.Proofs.Layer.Transparency
import LayeredMemory.Proofs.Layer.Books
import LayeredMemory.Proofs.Slab.Geometry
import LayeredMemory.Proofs.Slab.Return
import LayeredMemory.Proofs.Slab.Verdict
import LayeredMemory.Proofs.Cache.Admission
import LayeredMemory.Proofs.Cache.Surgery
import LayeredMemory.Proofs.Cache.Inert
import LayeredMemory.Proofs.Rounding
