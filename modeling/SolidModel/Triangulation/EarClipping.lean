import SolidModel.Triangulation.Orientation

/-!
# Triangulation by clipping ears

A clockwise loop is cut into triangles one corner at a time. A corner can be clipped if it does
not turn counter-clockwise and either is a sliver or holds no other point of the remaining ring;
the first such corner is taken. Each clipped corner is one triangle of the result, so a loop of
`n` points has `n - 2` of them, and `clip` recurses on that number.

Whether the loop runs clockwise is judged at its leftmost point alone, the lower one of those
that are leftmost up to the tolerance.

Slivers are clipped without looking for points inside. If most of the triangles are slivers the
result carries a notice, see `Triangulation.notices`.
-/

namespace SolidModel

variable {K : Type}

/-- A triangle as positions in a sequence of points. -/
structure Triangle where
  a : Nat
  b : Nat
  c : Nat
  deriving DecidableEq

namespace Triangle

/-- The same triangle run the other way. -/
def reversed (t : Triangle) : Triangle := ⟨t.c, t.b, t.a⟩

@[simp] theorem reversed_reversed (t : Triangle) : t.reversed.reversed = t := rfl

/-- The three positions. -/
def toList (t : Triangle) : List Nat := [t.a, t.b, t.c]

@[simp] theorem toList_reversed (t : Triangle) : t.reversed.toList = t.toList.reverse := rfl

end Triangle

/-- The remark that most triangles of a triangulation are slivers. -/
structure SliverNotice where
  slivers : Nat
  triangles : Nat
  deriving DecidableEq

/-- The words of the remark. -/
def SliverNotice.text (n : SliverNotice) : String :=
  s!"{n.slivers} of {n.triangles} triangles are degenerate slivers"

/-- The triangles of a polygon, and how many of them are slivers. -/
structure Triangulation where
  triangles : List Triangle
  slivers : Nat
  deriving DecidableEq

namespace Triangulation

/-- The triangles run the other way. -/
def reversed (t : Triangulation) : Triangulation :=
  { t with triangles := t.triangles.map Triangle.reversed }

/-- A remark if more than half of the triangles are slivers. -/
def notices (t : Triangulation) : List SliverNotice :=
  if t.triangles.length < t.slivers * 2 then [⟨t.slivers, t.triangles.length⟩] else []

@[simp] theorem reversed_reversed (t : Triangulation) : t.reversed.reversed = t := by
  simp [reversed, Function.comp_def]

@[simp] theorem notices_reversed (t : Triangulation) : t.reversed.notices = t.notices := by
  simp [reversed, notices]

end Triangulation

/-! ## Rings and their corners -/

/-- A point of a ring with its position in the sequence that the ring was made from. -/
structure Vertex (K : Type) where
  index : Nat
  point : Point2 K

/-- A vertex of a ring between its neighbours. -/
structure Corner (K : Type) where
  before : Vertex K
  tip : Vertex K
  after : Vertex K

namespace Vertex

/-- The points of a sequence, numbered from `start`. -/
def numbered (points : List (Point2 K)) (start : Nat := 0) : List (Vertex K) :=
  (points.zipIdx start).map fun (point, index) => ⟨index, point⟩

/-- The corners of a ring in order; the first and the last vertex are neighbours. -/
def corners (ring : List (Vertex K)) : List (Corner K) :=
  List.zipWith (fun before (tip, after) => ⟨before, tip, after⟩)
    (ring.rotateRight 1) (ring.zip (ring.rotateLeft 1))

@[simp] theorem length_numbered (points : List (Point2 K)) (start : Nat) :
    (numbered points start).length = points.length := by
  simp [numbered]

/-- A ring has as many corners as vertices. -/
@[simp] theorem length_corners (ring : List (Vertex K)) :
    (corners ring).length = ring.length := by
  simp [corners]

end Vertex

namespace Corner

/-- The triangle that the corner cuts off. -/
def triangle (c : Corner K) : Triangle := ⟨c.before.index, c.tip.index, c.after.index⟩

variable [Scalar K]

/-- Does the corner turn counter-clockwise? -/
def isReflex (c : Corner K) : Bool :=
  Point2.isCounterClockwise c.before.point c.tip.point c.after.point

/-- Is the triangle of the corner a sliver? -/
def isSliver (c : Corner K) : Bool :=
  Point2.isSliver c.before.point c.tip.point c.after.point

/-- Is `v` one of the three vertices of the corner? -/
def touches (c : Corner K) (v : Vertex K) : Bool :=
  v.index == c.tip.index || v.index == c.before.index || v.index == c.after.index

/-- Does the triangle of the corner hold no other vertex of the ring? -/
def isFree (ring : List (Vertex K)) (c : Corner K) : Bool :=
  ring.all fun v =>
    c.touches v || !Point2.inTriangle v.point c.before.point c.tip.point c.after.point

/-- Can the corner be clipped? -/
def isEar (ring : List (Vertex K)) (c : Corner K) : Bool :=
  !c.isReflex && (c.isSliver || c.isFree ring)

/-- Is the tip of `c` further left than that of `d`, or as far left and lower? -/
def precedes (c d : Corner K) : Bool :=
  let p := c.tip.point
  let q := d.tip.point
  decide (p.x < q.x) || (Scalar.close p.x q.x Scalar.areaEpsilon && decide (p.y < q.y))

/-- The corner that no later one precedes, going through the corners in order. -/
def leftmost (first : Corner K) (others : List (Corner K)) : Corner K :=
  others.foldl (fun best c => if c.precedes best then c else best) first

end Corner

/-! ## Clipping -/

namespace EarClipping

variable [Scalar K]

/-- Clips `count` ears off a ring, in the order in which they are found. -/
def clip : (count : Nat) → List (Vertex K) → Except (Fault K) (List (Corner K))
  | 0, _ => .ok []
  | count + 1, ring =>
    match (Vertex.corners ring).find? (·.isEar ring) with
    | none => .error (.noEar ring.length)
    | some ear => do
      let rest ← clip count (ring.eraseP fun v => v.index == ear.tip.index)
      return ear :: rest

theorem length_clip {count : Nat} {ring : List (Vertex K)} {ears : List (Corner K)}
    (h : clip count ring = .ok ears) : ears.length = count := by
  induction count generalizing ring ears with
  | zero =>
    simp only [clip, Except.ok.injEq] at h
    simp [← h]
  | succ count ih =>
    simp only [clip] at h
    split at h
    · cases h
    · rename_i ear _
      cases hr : clip count (ring.eraseP fun v => v.index == ear.tip.index) with
      | error fault => simp [hr, bind, Except.bind] at h
      | ok rest =>
        simp only [hr, bind, Except.bind, pure, Except.pure, Except.ok.injEq] at h
        simp [← h, ih hr]

/-- The ears of a clockwise ring. -/
def ears (ring : List (Vertex K)) : Except (Fault K) (List (Corner K)) :=
  match Vertex.corners ring with
  | first :: second :: third :: others =>
    if (Corner.leftmost first (second :: third :: others)).isReflex then .error .notClockwise
    else clip (ring.length - 2) ring
  | _ => .error (.tooFewPoints ring.length)

/-- The triangulation that a sequence of ears makes up. -/
def ofEars (ears : List (Corner K)) : Triangulation :=
  ⟨ears.map Corner.triangle, ears.countP Corner.isSliver⟩

end EarClipping

/-- The triangles of a clockwise loop, each of them clockwise. -/
def Triangulation.ofLoop [Scalar K] (loop : List (Point2 K)) :
    Except (Fault K) Triangulation :=
  (EarClipping.ears (Vertex.numbered loop)).map EarClipping.ofEars

end SolidModel
