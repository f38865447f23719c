import SolidModel.Triangulation.EarClipping

/-!
# Loops with holes made into one ring

An outline with holes becomes a single ring by bridges: from the leftmost point of a hole a
segment leads to a point of the ring that can see it, the ring goes over to the hole, around it
and back. Holes are joined from left to right, so that to the left of a hole there is only what
already belongs to the ring. The outline runs clockwise and holes counter-clockwise, hence the
inside is always to the right.

The resulting ring touches itself along the bridges, so several of its corners may be at one
place, each with an angle of its own. Its corners are therefore clipped by a stricter test than
those of a simple loop: the cut has to lie within the angles at both of its ends, which tells
corners at one place apart, and no point elsewhere may lie in the triangle or on its edges. A
triangulation of the region that keeps to the bridges is a tree of triangles, and each of its
leaves passes the test.
-/

namespace SolidModel

namespace Bridge

variable {K : Type} [Scalar K]

/-! ## The ring -/

/-- A loop that repeats its first point at the end, without the repetition. -/
def opened (ring : List (Vertex K)) : List (Vertex K) :=
  match ring.head?, ring.getLast? with
  | some first, some last => if first.point == last.point then ring.dropLast else ring
  | _, _ => ring

/-- The ring with the given direction around its area. -/
def directed (clockwise : Bool) (ring : List (Vertex K)) : List (Vertex K) :=
  let area := Polyline.signedArea (ring.map Vertex.point)
  if clockwise then if 0.0 < area then ring.reverse else ring
  else if area < 0.0 then ring.reverse else ring

/-- The position of the leftmost vertex, the lowest of those. -/
def leftmostIndex (ring : List (Vertex K)) : Nat :=
  let step (best : Option (Point2 K × Nat)) (next : Vertex K × Nat) : Option (Point2 K × Nat) :=
    let p := next.1.point
    match best with
    | none => some (p, next.2)
    | some (q, i) => if p.x < q.x ∨ (p.x == q.x ∧ p.y < q.y) then some (p, next.2) else some (q, i)
  ((ring.zipIdx.foldl step none).map Prod.snd).getD 0

/-- A hole from its leftmost vertex on. -/
def fromLeftmost (hole : List (Vertex K)) : List (Vertex K) := hole.rotateLeft (leftmostIndex hole)

/-! ## Where a bridge ends -/

/-- Twice the signed area of a corner. -/
def cornerArea (c : Corner K) : K :=
  Point2.doubleArea c.before.point c.tip.point c.after.point

/-- Does the segment from the tip of a corner to `p` start out into the inside? -/
def sees (c : Corner K) (p : Point2 K) : Bool :=
  let fromBefore := Point2.doubleArea c.tip.point p c.before.point
  let fromAfter := Point2.doubleArea c.tip.point c.after.point p
  if cornerArea c < 0.0 then decide (fromAfter ≤ 0.0) && decide (fromBefore ≤ 0.0)
  else decide (fromBefore < 0.0) || decide (fromAfter < 0.0)

/-- Is the angle of the corner `d` within that of the corner `c` at the same place? -/
def within (c d : Corner K) : Bool :=
  decide (Point2.doubleArea c.before.point c.tip.point d.before.point < 0.0) &&
    decide (Point2.doubleArea d.after.point c.tip.point c.after.point < 0.0)

/-- Is `p` in the triangle, its edges included, whichever way the triangle runs? -/
def covers (a b c p : Point2 K) : Bool :=
  let u := Point2.doubleArea a b p
  let v := Point2.doubleArea b c p
  let w := Point2.doubleArea c a p
  (decide (0.0 ≤ u) && decide (0.0 ≤ v) && decide (0.0 ≤ w)) ||
    (decide (u ≤ 0.0) && decide (v ≤ 0.0) && decide (w ≤ 0.0))

/-- Where the edge from `p` up to `q` passes to the left of `h`. -/
def passage? (h p q : Point2 K) : Option K :=
  if p.y ≤ h.y ∧ h.y ≤ q.y ∧ ¬(p.y == q.y) then
    let x := p.x + (h.y - p.y) * (q.x - p.x) / (q.y - p.y)
    if x ≤ h.x then some x else none
  else none

/-- The nearest passage to the left of `h`, with the corner at the left end of its edge. -/
def nearestPassage (corners : List (Corner K)) (h : Point2 K) : Option (K × Corner K) :=
  let step (best : Option (K × Corner K)) (edge : Corner K × Corner K) :
      Option (K × Corner K) :=
    let p := edge.1.tip.point
    let q := edge.2.tip.point
    match passage? h p q with
    | none => best
    | some x =>
      let found := some (x, if p.x < q.x then edge.1 else edge.2)
      match best with
      | none => found
      | some (y, _) => if y < x then found else best
  (Polyline.cyclicPairs corners).foldl step none

/-- How steeply `p` lies above or below `h`, to the left of it. -/
def steepness (h p : Point2 K) : K := Scalar.magnitude (h.y - p.y) / (h.x - p.x)

/-- The corner that a bridge from `h` may lead to: the left end of the edge that `h` faces, or
if points lie in between, that of them in the flattest direction. -/
def landing? (corners : List (Corner K)) (h : Point2 K) : Option (Corner K) := do
  let (x, facing) ← nearestPassage corners h
  if x == h.x then return facing
  let m := facing.tip.point
  let inBetween (c : Corner K) : Bool :=
    let p := c.tip.point
    decide (p.x < h.x) && decide (m.x ≤ p.x) && covers h ⟨x, h.y⟩ m p && sees c h
  let step (best : Corner K × Option K) (c : Corner K) : Corner K × Option K :=
    if inBetween c then
      let slope := steepness h c.tip.point
      match best.2 with
      | none => (c, some slope)
      | some least =>
        let p := c.tip.point
        let q := best.1.tip.point
        if slope < least ∨ (slope == least ∧
            (q.x < p.x ∨ (p.x == q.x ∧ within best.1 c = true))) then (c, some slope)
        else best
    else best
  return (corners.foldl step (facing, none)).1

/-! ## Joining -/

/-- The ring led over to a hole behind position `i`, around it and back. -/
def spliced (ring : List (Vertex K)) (i : Nat) (hole : List (Vertex K)) : List (Vertex K) :=
  ring.take (i + 1) ++ hole ++ hole.take 1 ++ ring.drop i

/-- The ring with a hole joined to it; a hole that faces no edge of the ring is left out. -/
def joined (ring : List (Vertex K)) (hole : List (Vertex K)) : List (Vertex K) :=
  match hole with
  | [] => ring
  | h :: _ =>
    let numbered := (Vertex.corners ring).zipIdx
    let tagged : List (Corner K) := numbered.map fun (c, i) =>
      { c with tip := ⟨i, c.tip.point⟩ }
    match landing? tagged h.point with
    | none => ring
    | some c => spliced ring c.tip.index hole

/-- The outline with all holes joined to it, from left to right. -/
def merged (outline : List (Vertex K)) (holes : List (List (Vertex K))) : List (Vertex K) :=
  let left (hole : List (Vertex K)) : List K := (hole.map (·.point.x)).take 1
  let leftOf (g h : List (Vertex K)) : Bool :=
    match left g, left h with
    | [x], [y] => decide (x ≤ y)
    | _, _ => true
  let holes := holes.map fun hole => fromLeftmost (directed false (opened hole))
  (holes.mergeSort leftOf).foldl joined (directed true (opened outline))

/-! ## Clipping -/

/-- Is `p` in the triangle of a corner, and not at one of its own points? -/
def obstructs (c : Corner K) (p : Point2 K) : Bool :=
  !(p == c.before.point || p == c.tip.point || p == c.after.point) &&
    covers c.before.point c.tip.point c.after.point p

/-- Can the corner between two others be clipped? It has area, the cut leads into the inside at
both of its ends, and no point of the ring lies in the way. -/
def isEar (corners : List (Corner K)) (before c after : Corner K) : Bool :=
  decide (cornerArea c < 0.0) && sees before c.after.point && sees after c.before.point &&
    corners.all fun other => !obstructs c other.tip.point

/-- The position of the first corner that can be clipped. -/
def clippable? (corners : List (Corner K)) : Option Nat :=
  ((corners.rotateRight 1).zip (corners.zip (corners.rotateLeft 1))).findIdx?
    fun (before, c, after) => isEar corners before c after

/-- The position of a corner without area, which can be dropped. -/
def flat? (corners : List (Corner K)) : Option Nat :=
  corners.findIdx? fun c => c.tip.point == c.after.point || cornerArea c == 0.0

/-- The triangles of a ring with `count` vertices that may touch itself: corners are clipped
while there are any, and flat ones are dropped when there are none. -/
def clip : (count : Nat) → List (Vertex K) → List Triangle
  | 0, _ => []
  | count + 1, ring =>
    let corners := Vertex.corners ring
    if corners.length < 3 then []
    else
      match clippable? corners with
      | some i =>
        match corners[i]? with
        | some c => c.triangle :: clip count (ring.eraseIdx i)
        | none => []
      | none =>
        match flat? corners with
        | some i => clip count (ring.eraseIdx i)
        | none => []

end Bridge

end SolidModel
