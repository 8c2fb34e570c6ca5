import CibosPlatform.Firmware.UsableRam
import CibosPlatform.Kernel.Sync
import CibosPlatform.Kernel.Paging.Ranges
import CibosPlatform.Kernel.AddressSpace.Conservation
import CibosPlatform.Kernel.Cibosfs.Atomicity
import CibosPlatform.Kernel.Channel.Gap
import CibosPlatform.Kernel.Gate.Release
import CibosPlatform.KernelImage.Authority
import CibosPlatform.KernelImage.Outcomes
import CibosPlatform.KernelImage.Directions
import CibosPlatform.Kernel.Scheduler.Uniformity
import CibosPlatform.KernelImage.UserMemory
import CibosPlatform.KernelImage.Receive
import CibosPlatform.Kernel.Finished
import CibosPlatform.Sdk.Timeout
import CibosPlatform.Login.Gate
import CibosPlatform.Login.Lockscreen
import CibosPlatform.Shared.Sphincs.HonestSigner
import CibosPlatform.Shared.Sphincs.Separation
import CibosPlatform.Firmware.Fdt
import CibosPlatform.App.HeapSafety
import CibosPlatform.Applications.Editor
import CibosPlatform.Applications.Trove
import CibosPlatform.Firmware.Boot
import CibosPlatform.KernelImage.LoadedImage
import CibosPlatform.KernelImage.Echo
import CibosPlatform.KernelImage.Ata
import CibosPlatform.Sdk.Lockstep
import CibosPlatform.Sdk.Ceiling
import CibosPlatform.Kernel.Scheduler.Timers
import CibosPlatform.Kernel.Frame.Safety
import CibosPlatform.Runtime.Lanes
import CibosPlatform.Kernel.Channel.Wakeups
import CibosPlatform.Kernel.Scheduler.Batches
import CibosPlatform.Sdk.Weight
import CibosPlatform.Kernel.Ledger
