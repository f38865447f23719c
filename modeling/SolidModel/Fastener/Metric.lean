import SolidModel.Scalar

/-!
# Metric thread sizes

The measures of ISO metric threads, in millimetres. Sizes that the table does not have take the
row of the next smaller one, and sizes below the smallest take that.
-/

namespace SolidModel

/-- The measures of one size. -/
structure MetricThread (K : Type) where
  size : Nat
  pitch : K
  externalMajor : K
  internalMajor : K
  nutWidth : K
  chamferSize : K
  deriving DecidableEq

namespace MetricThread

variable {K : Type} [Scalar K]

/-- The smallest size. -/
def smallest : MetricThread K := ⟨2, 0.4, 1.886, 2.148, 4.0, 1.45⟩

/-- The other sizes in ascending order. -/
def larger : List (MetricThread K) := [
  ⟨3, 0.5, 2.874, 3.172, 5.5, 1.6⟩,
  ⟨4, 0.7, 3.838, 4.219, 7.0, 1.8⟩,
  ⟨5, 0.8, 4.826, 5.24, 8.0, 1.9⟩,
  ⟨6, 1.0, 5.794, 6.294, 10.0, 2.1⟩,
  ⟨7, 1.0, 6.794, 7.294, 13.0, 2.45⟩,
  ⟨8, 1.25, 7.76, 8.34, 13.0, 2.45⟩,
  ⟨9, 1.25, 8.76, 9.34, 16.0, 2.8⟩,
  ⟨10, 1.5, 9.732, 10.396, 16.0, 2.8⟩,
  ⟨11, 1.5, 10.73, 11.387, 18.0, 3.0⟩,
  ⟨12, 1.75, 11.7, 12.453, 18.0, 3.0⟩,
  ⟨14, 2.0, 13.68, 14.501, 21.0, 3.35⟩,
  ⟨15, 1.5, 14.73, 15.407, 24.0, 3.7⟩,
  ⟨16, 2.0, 15.68, 16.501, 24.0, 3.7⟩,
  ⟨17, 1.5, 16.73, 17.407, 27.0, 3.9⟩,
  ⟨18, 2.5, 17.62, 18.585, 27.0, 3.9⟩,
  ⟨20, 2.5, 19.62, 20.585, 30.0, 4.25⟩,
  ⟨22, 3.0, 21.58, 22.677, 34.0, 4.75⟩,
  ⟨24, 3.0, 23.58, 24.698, 36.0, 4.9⟩,
  ⟨25, 2.0, 24.68, 25.513, 41.0, 5.5⟩,
  ⟨26, 1.5, 25.73, 26.417, 41.0, 5.5⟩,
  ⟨27, 3.0, 26.58, 27.698, 41.0, 5.5⟩,
  ⟨28, 2.0, 27.68, 28.513, 46.0, 6.0⟩,
  ⟨30, 3.5, 29.52, 30.785, 46.0, 6.0⟩,
  ⟨32, 2.0, 31.68, 32.513, 49.0, 6.4⟩,
  ⟨33, 3.5, 32.54, 33.785, 49.0, 6.4⟩,
  ⟨35, 1.5, 34.73, 35.416, 55.0, 7.0⟩,
  ⟨36, 4.0, 35.47, 36.877, 55.0, 7.0⟩,
  ⟨38, 1.5, 37.73, 38.417, 60.0, 7.5⟩,
  ⟨39, 4.0, 38.47, 39.877, 60.0, 7.5⟩,
  ⟨40, 3.0, 39.58, 40.698, 65.0, 8.2⟩,
  ⟨42, 4.5, 41.44, 42.965, 65.0, 8.2⟩,
  ⟨45, 4.5, 44.44, 45.965, 70.0, 8.75⟩,
  ⟨48, 5.0, 47.4, 49.057, 75.0, 9.25⟩,
  ⟨50, 4.0, 49.47, 50.892, 80.0, 9.5⟩,
  ⟨52, 5.0, 51.4, 53.037, 80.0, 9.5⟩,
  ⟨55, 4.0, 54.47, 55.892, 85.0, 10.25⟩,
  ⟨56, 5.5, 55.37, 57.149, 85.0, 10.25⟩,
  ⟨58, 4.0, 57.47, 58.892, 90.0, 10.75⟩,
  ⟨60, 5.5, 59.37, 61.149, 90.0, 10.75⟩,
  ⟨62, 4.0, 61.47, 62.892, 95.0, 11.25⟩,
  ⟨63, 1.5, 62.73, 63.429, 95.0, 11.25⟩,
  ⟨64, 6.0, 63.32, 65.421, 95.0, 11.25⟩,
  ⟨65, 4.0, 64.47, 65.892, 100.0, 11.75⟩,
  ⟨68, 6.0, 67.32, 69.241, 100.0, 11.75⟩,
  ⟨70, 6.0, 69.32, 71.241, 100.0, 11.75⟩,
  ⟨72, 6.0, 71.32, 73.241, 110.0, 13.0⟩,
  ⟨75, 6.0, 74.32, 76.241, 110.0, 13.0⟩,
  ⟨76, 6.0, 75.32, 77.241, 110.0, 13.0⟩,
  ⟨78, 2.0, 77.68, 78.525, 120.0, 14.25⟩,
  ⟨80, 6.0, 79.32, 81.241, 120.0, 14.25⟩,
  ⟨82, 2.0, 81.68, 82.525, 120.0, 14.25⟩,
  ⟨85, 6.0, 84.32, 86.241, 130.0, 15.25⟩,
  ⟨90, 6.0, 89.32, 91.241, 130.0, 15.25⟩,
  ⟨95, 6.0, 94.32, 96.266, 130.0, 15.25⟩,
  ⟨100, 6.0, 99.32, 101.27, 140.0, 16.5⟩]

/-- All sizes in ascending order. -/
def table : List (MetricThread K) := smallest :: larger

/-- The row that a size takes: the largest one not above it, or else the smallest. -/
def ofSize (m : Int) : MetricThread K :=
  ((larger.takeWhile fun row => decide ((row.size : Int) ≤ m)).getLast?).getD smallest

/-- The name of a size. -/
def name (t : MetricThread K) : String := s!"M{t.size}"

end MetricThread

/-! ## Thread geometry -/

namespace Thread

variable {K : Type} [Scalar K] [Trig K]

/-- The height of the triangle that a thread of the given pitch is cut from. -/
def height (pitch : K) : K := Trig.sqrt 3.0 / 2.0 * pitch

/-- The minor diameter to a major diameter and a pitch. -/
def minorDiameter (major pitch : K) : K := major - 2.0 * 5.0 / 8.0 * height pitch

end Thread

end SolidModel
