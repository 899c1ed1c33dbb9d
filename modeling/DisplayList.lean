import DisplayList.Main
import DisplayList.Proofs.Recording
import DisplayList.Proofs.Drawing
import DisplayList.Proofs.Epochs
import DisplayList.Proofs.Run
import DisplayList.Proofs.WindowLoad
import DisplayList.Proofs.FaceResolution
import DisplayList.Proofs.Boundaries
import DisplayList.Proofs.FirstUses
import DisplayList.Proofs.Materials
import DisplayList.Proofs.Meshes
import DisplayList.Proofs.Segmentation
import DisplayList.Proofs.Reachability
import DisplayList.Proofs.Placement
import DisplayList.Proofs.Addresses
import DisplayList.Proofs.Coordinates
import DisplayList.Proofs.Failures
import DisplayList.Proofs.Accounting
import DisplayList.Proofs.Geometry
import DisplayList.Proofs.Images
import DisplayList.Proofs.Reports
import DisplayList.Proofs.Appending
import DisplayList.Proofs.Extension
import DisplayList.Proofs.Singles
import DisplayList.Proofs.Layout
import DisplayList.Proofs.LayoutReading
import DisplayList.Proofs.ObjReading
import DisplayList.Proofs.ObjNumbering
import DisplayList.Proofs.ObjFaces
import DisplayList.Proofs.SteadyRatios
import DisplayList.Proofs.TileAnticipation
import DisplayList.Proofs.CheckedReading
import DisplayList.Proofs.ExportedFiles
import DisplayList.Proofs.Conversions
import DisplayList.Proofs.BitFields
import DisplayList.Proofs.Texels
import DisplayList.Proofs.Unpacking
import DisplayList.Proofs.Repacking
import DisplayList.Proofs.PaletteLoads
import DisplayList.Proofs.UnboundTextures
import DisplayList.Proofs.WrapModes
import DisplayList.Proofs.CommandRegion
import DisplayList.Proofs.ExactLoading
import DisplayList.Proofs.ExactRunning
import DisplayList.Proofs.ExactMeshes
import DisplayList.Proofs.FirstCorners
import DisplayList.Proofs.LoadedSlots
import DisplayList.Proofs.MaterialIndex
