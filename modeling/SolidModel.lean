import SolidModel.Main
import SolidModel.Matrix4.Inverse
import SolidModel.Numeral.Reading
import SolidModel.Workbench
import SolidModel.Proofs.Assembly.Bench
import SolidModel.Proofs.Curve.Interpolation
import SolidModel.Proofs.EarClipping.Area
import SolidModel.Proofs.EarClipping.Cover
import SolidModel.Proofs.EarClipping.Planar
import SolidModel.Proofs.EarClipping.Slivers
import SolidModel.Proofs.Fastener.Sizes
import SolidModel.Proofs.Matrix4.Objects
import SolidModel.Proofs.Plane.RationalTurn
import SolidModel.Proofs.Profile.Clockwise
import SolidModel.Proofs.Profile.CurvedStar
import SolidModel.Proofs.Profile.Tangents
import SolidModel.Proofs.Space.Alignment
import SolidModel.Proofs.Space.Axes
import SolidModel.Proofs.Space.Views
import SolidModel.Proofs.Surface.ClosedSweeps
import SolidModel.Proofs.Surface.Fasteners
import SolidModel.Proofs.Surface.HoleDirections
import SolidModel.Proofs.Surface.Holes
import SolidModel.Proofs.Surface.Passages
import SolidModel.Proofs.Surface.Prism
import SolidModel.Proofs.Surface.Refusals
import SolidModel.Proofs.Surface.RegularPrisms
import SolidModel.Proofs.Surface.RevolvedVolume
import SolidModel.Proofs.Surface.Straight
import SolidModel.Proofs.Surface.Thread
import SolidModel.Proofs.Surface.Tube
import SolidModel.Proofs.Thread.Climb
import SolidModel.Proofs.Thread.Handedness
import SolidModel.Proofs.Thread.NegativeLeads
