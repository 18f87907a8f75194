import Osedax.Detect.HeadLength
import Osedax.Detect.Extension
import Osedax.Detect.Hybrid
import Osedax.Detect.Reads
import Osedax.Detect.BootSector
import Osedax.Detect.Terminator
import Osedax.Detect.Codec
import Osedax.Detect.Flavor
import Osedax.Detect.NoPanic
import Osedax.Detect.Capability
import Osedax.Detect.Isohybrid
import Osedax.Device.KernelTable
import Osedax.Device.MountEscapes
import Osedax.Device.RootDisk
import Osedax.Device.SourceDrive
import Osedax.Device.Hazards
import Osedax.Device.Guarded
import Osedax.Device.Shares
import Osedax.Device.Targets
import Osedax.Cli.List
