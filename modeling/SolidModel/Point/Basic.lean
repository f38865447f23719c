import SolidModel.Scalar

/-!
# Points and vectors

Points of the plane and of space, and homogeneous points, on which matrices act. The arithmetic
that does not depend on the dimension is the class `VectorOps`, so curves are written once for the
plane and for space.
-/

namespace SolidModel

/-- A point or vector of the plane. -/
structure Point2 (K : Type) where
  x : K
  y : K
  deriving DecidableEq

/-- A point or vector of space. -/
structure Point3 (K : Type) where
  x : K
  y : K
  z : K
  deriving DecidableEq

/-- A homogeneous point: `w` is one for a place and zero for a direction. -/
structure Point4 (K : Type) where
  x : K
  y : K
  z : K
  w : K
  deriving DecidableEq

/-- A point of any of the three kinds, as messages show it. -/
inductive Position (K : Type) where
  | plane (p : Point2 K)
  | space (p : Point3 K)
  | homogeneous (p : Point4 K)

/-- What sums, multiples and lengths need, in any dimension. -/
class VectorOps (K : outParam Type) (P : Type) extends Add P, Sub P, Neg P where
  scale : P → K → P
  divide : P → K → P
  dot : P → P → K
  position : P → Position K

instance {K P : Type} [VectorOps K P] : HMul P K P := ⟨VectorOps.scale⟩

instance {K P : Type} [VectorOps K P] : HDiv P K P := ⟨VectorOps.divide⟩

variable {K : Type}

namespace Point2

/-- Equal in every coordinate, as numbers. -/
protected def beq [BEq K] (p q : Point2 K) : Bool := p.x == q.x && p.y == q.y

instance [BEq K] : BEq (Point2 K) := ⟨Point2.beq⟩

variable [Scalar K]

instance : VectorOps K (Point2 K) where
  add p q := ⟨p.x + q.x, p.y + q.y⟩
  sub p q := ⟨p.x - q.x, p.y - q.y⟩
  neg p := ⟨-p.x, -p.y⟩
  scale p s := ⟨p.x * s, p.y * s⟩
  divide p s := ⟨p.x / s, p.y / s⟩
  dot p q := p.x * q.x + p.y * q.y
  position := .plane

@[simp] theorem add_x (p q : Point2 K) : (p + q).x = p.x + q.x := rfl
@[simp] theorem add_y (p q : Point2 K) : (p + q).y = p.y + q.y := rfl
@[simp] theorem sub_x (p q : Point2 K) : (p - q).x = p.x - q.x := rfl
@[simp] theorem sub_y (p q : Point2 K) : (p - q).y = p.y - q.y := rfl
@[simp] theorem neg_x (p : Point2 K) : (-p).x = -p.x := rfl
@[simp] theorem neg_y (p : Point2 K) : (-p).y = -p.y := rfl
@[simp] theorem mul_x (p : Point2 K) (s : K) : (p * s).x = p.x * s := rfl
@[simp] theorem mul_y (p : Point2 K) (s : K) : (p * s).y = p.y * s := rfl
@[simp] theorem div_x (p : Point2 K) (s : K) : (p / s).x = p.x / s := rfl
@[simp] theorem div_y (p : Point2 K) (s : K) : (p / s).y = p.y / s := rfl

/-- The point of the horizontal plane at height `z`. -/
def atHeight (p : Point2 K) (z : K) : Point3 K := ⟨p.x, p.y, z⟩

/-- The point of the vertical X/Z plane: `y` becomes the height. -/
def upright (p : Point2 K) : Point3 K := ⟨p.x, 0.0, p.y⟩

/-- The coordinates in order. -/
def toList (p : Point2 K) : List K := [p.x, p.y]

end Point2

namespace Point3

/-- Equal in every coordinate, as numbers. -/
protected def beq [BEq K] (p q : Point3 K) : Bool := p.x == q.x && p.y == q.y && p.z == q.z

instance [BEq K] : BEq (Point3 K) := ⟨Point3.beq⟩

variable [Scalar K]

instance : VectorOps K (Point3 K) where
  add p q := ⟨p.x + q.x, p.y + q.y, p.z + q.z⟩
  sub p q := ⟨p.x - q.x, p.y - q.y, p.z - q.z⟩
  neg p := ⟨-p.x, -p.y, -p.z⟩
  scale p s := ⟨p.x * s, p.y * s, p.z * s⟩
  divide p s := ⟨p.x / s, p.y / s, p.z / s⟩
  dot p q := p.x * q.x + p.y * q.y + p.z * q.z
  position := .space

@[simp] theorem add_x (p q : Point3 K) : (p + q).x = p.x + q.x := rfl
@[simp] theorem add_y (p q : Point3 K) : (p + q).y = p.y + q.y := rfl
@[simp] theorem add_z (p q : Point3 K) : (p + q).z = p.z + q.z := rfl
@[simp] theorem sub_x (p q : Point3 K) : (p - q).x = p.x - q.x := rfl
@[simp] theorem sub_y (p q : Point3 K) : (p - q).y = p.y - q.y := rfl
@[simp] theorem sub_z (p q : Point3 K) : (p - q).z = p.z - q.z := rfl
@[simp] theorem neg_x (p : Point3 K) : (-p).x = -p.x := rfl
@[simp] theorem neg_y (p : Point3 K) : (-p).y = -p.y := rfl
@[simp] theorem neg_z (p : Point3 K) : (-p).z = -p.z := rfl
@[simp] theorem mul_x (p : Point3 K) (s : K) : (p * s).x = p.x * s := rfl
@[simp] theorem mul_y (p : Point3 K) (s : K) : (p * s).y = p.y * s := rfl
@[simp] theorem mul_z (p : Point3 K) (s : K) : (p * s).z = p.z * s := rfl
@[simp] theorem div_x (p : Point3 K) (s : K) : (p / s).x = p.x / s := rfl
@[simp] theorem div_y (p : Point3 K) (s : K) : (p / s).y = p.y / s := rfl
@[simp] theorem div_z (p : Point3 K) (s : K) : (p / s).z = p.z / s := rfl

/-- The vector product. -/
def cross (p q : Point3 K) : Point3 K :=
  ⟨p.y * q.z - p.z * q.y, p.z * q.x - p.x * q.z, p.x * q.y - p.y * q.x⟩

/-- The shadow on the horizontal plane. -/
def flat (p : Point3 K) : Point2 K := ⟨p.x, p.y⟩

/-- The homogeneous point with the last coordinate `w`. -/
def withW (p : Point3 K) (w : K) : Point4 K := ⟨p.x, p.y, p.z, w⟩

/-- The coordinates in order. -/
def toList (p : Point3 K) : List K := [p.x, p.y, p.z]

end Point3

namespace Point4

/-- Equal in every coordinate, as numbers. -/
protected def beq [BEq K] (p q : Point4 K) : Bool :=
  p.x == q.x && p.y == q.y && p.z == q.z && p.w == q.w

instance [BEq K] : BEq (Point4 K) := ⟨Point4.beq⟩

variable [Scalar K]

instance : VectorOps K (Point4 K) where
  add p q := ⟨p.x + q.x, p.y + q.y, p.z + q.z, p.w + q.w⟩
  sub p q := ⟨p.x - q.x, p.y - q.y, p.z - q.z, p.w - q.w⟩
  neg p := ⟨-p.x, -p.y, -p.z, -p.w⟩
  scale p s := ⟨p.x * s, p.y * s, p.z * s, p.w * s⟩
  divide p s := ⟨p.x / s, p.y / s, p.z / s, p.w / s⟩
  dot p q := p.x * q.x + p.y * q.y + p.z * q.z + p.w * q.w
  position := .homogeneous

/-- The coordinates other than `w`. -/
def dropW (p : Point4 K) : Point3 K := ⟨p.x, p.y, p.z⟩

/-- The coordinates in order. -/
def toList (p : Point4 K) : List K := [p.x, p.y, p.z, p.w]

/-- The coordinate at an index. -/
def get (p : Point4 K) : Fin 4 → K
  | 0 => p.x
  | 1 => p.y
  | 2 => p.z
  | 3 => p.w

/-- The point with one coordinate changed. -/
def set (p : Point4 K) (i : Fin 4) (value : K) : Point4 K :=
  match i with
  | 0 => { p with x := value }
  | 1 => { p with y := value }
  | 2 => { p with z := value }
  | 3 => { p with w := value }

omit [Scalar K] in
@[simp] theorem get_set_self (p : Point4 K) (i : Fin 4) (x : K) : (p.set i x).get i = x := by
  match i with
  | 0 | 1 | 2 | 3 => rfl

omit [Scalar K] in
theorem eq_of_get {p q : Point4 K} (h : ∀ i, p.get i = q.get i) : p = q := by
  cases p
  cases q
  simp only [Point4.mk.injEq]
  exact ⟨h 0, h 1, h 2, h 3⟩

end Point4

end SolidModel
