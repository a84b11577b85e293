import BootImage.Build
import BootImage.Codec.Lzma
import BootImage.Codec.Xz
import BootImage.FileSystem.Tree
import BootImage.ModuleRegion.Reader
import BootImage.Output.Medium
import BootImage.Output.Trace
import BootImage.Pe.Reader
import BootImage.Proofs.Outcome
import BootImage.Proofs.Rounding
import BootImage.Proofs.ModuleRegion.Planning
import BootImage.Proofs.Slices
import BootImage.Proofs.ModuleRegion.Emission
import BootImage.Proofs.ModuleRegion.Placement
import BootImage.Proofs.ModuleRegion.ReadBack
import BootImage.Proofs.Pe.Layout
import BootImage.Proofs.Pe.Headers
import BootImage.Proofs.Pe.Image
import BootImage.Proofs.Build.Stages
import BootImage.Proofs.Build.Contents
import BootImage.Proofs.Pe.Coverage
import BootImage.Proofs.Build.Stub
import BootImage.Proofs.Pe.Capacity
import BootImage.Proofs.Pe.Sections
import BootImage.Proofs.Pe.Blocks
import BootImage.Proofs.Pe.Contents
import BootImage.Proofs.Build.Flat
import BootImage.Proofs.Build.RegionSize
import BootImage.Proofs.Pe.Entry
import BootImage.Proofs.Pe.Memory
import BootImage.Proofs.Pe.Totality
import BootImage.Proofs.Agreement
import BootImage.Proofs.ModuleRegion.Agreement
import BootImage.Proofs.Build.Agreement
import BootImage.Proofs.Patches
import BootImage.Proofs.ModuleRegion.Frame
import BootImage.Proofs.Build.Emission
import BootImage.Proofs.Output.Count
import BootImage.Proofs.Pe.Mismatch
import BootImage.Proofs.ModuleRegion.Changed
import BootImage.Proofs.Inheritance
import BootImage.Proofs.Build.Untold
import BootImage.Proofs.ModuleRegion.Limits
import BootImage.Proofs.Pe.Limits
import BootImage.Proofs.Ceiling
import BootImage.Proofs.Fields
import BootImage.Proofs.Words
