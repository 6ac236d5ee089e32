import OpenFS.Data.BitmapAllocator
import OpenFS.Data.DiskPool
import OpenFS.Data.DiskSteps

/-!
# Which disk the pool chooses

`SelectDisk` counts free blocks, while `WriteBlock` needs them in one run. A disk with
many free blocks but no run of the right length is chosen before one that has it, and
the write is refused.
-/

namespace OpenFS

open ByteImage FileLog DiskManager

namespace DiskPool

/-! ## The selection -/

variable {pool : DiskPool}

end DiskPool

end OpenFS
