import TokioRcu.SlotAllocator

/-!
# When the ids run out

`alloc_no_free_slots_grow_cur_data` re-creates the vector that owns the buffer
before it knows whether there is an id left. When there is none the panic
drops that vector, and the buffer with it, while the table goes on referring
to it; and it poisons the write lock.
-/

namespace TokioRcu

namespace Table

variable {cfg : TableConfig} {s s' : Table} {g : Ledger} {v : Nat}

end Table

end TokioRcu
