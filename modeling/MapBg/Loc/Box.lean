import MapBg.Loc.Basic

/-!
# Boxes, over any arithmetic

The geometry of the program is computed in `float`. Nothing that is proved about whole runs
depends on how that arithmetic rounds, or on its comparison being an order (there are NaNs), so
the model takes the operations the source uses as a class without laws. A statement over every
`FloatLike` type holds of IEEE single precision, and of exact arithmetic.

`FloatRep` adds the object representation, for the arrays of heights that go through `memcpy`
into the database and back. Its one law says that the bits determine the value.
-/

set_option autoImplicit false

namespace MapBg

/-- What the model needs of the type `float`: the operations that the code uses, without any law. A
definition that is stated over it can be read with real numbers, with signed zeros and infinities,
or with machine integers, and what is proved for all of them does not depend on how floating point
rounds. -/
class FloatLike (F : Type) extends Add F, Sub F, Mul F, Div F, Neg F where
  lt : F → F → Bool
  ofInt : Int → F
  /-- The conversion `(int)f`. -/
  toInt : F → Int
  /-- `powf(2.0, n)`. -/
  powf2 : Int → F
  /-- `std::numeric_limits<float>::max()`. -/
  maxVal : F

/-- With the bits of a number, as they are in a file. All that is asked of them is that they can be
read back. -/
class FloatRep (F : Type) extends FloatLike F where
  toBits : F → UInt32
  ofBits : UInt32 → F
  ofBits_toBits : ∀ f : F, ofBits (toBits f) = f

/-- Whole numbers of 32 bits, to evaluate the model with. -/
instance : FloatRep Int32 where
  lt a b := a < b
  ofInt := Int32.ofInt
  toInt := Int32.toInt
  powf2 n := Int32.ofInt (2 ^ n.toNat)
  maxVal := Int32.maxValue
  toBits := Int32.toUInt32
  ofBits := UInt32.toInt32
  ofBits_toBits _ := rfl

section

variable {F : Type} [FloatLike F]

/-! `std::min` and `std::max` return their first argument unless the second compares strictly
below, respectively above. -/

def stdMin (a b : F) : F := if FloatLike.lt b a then b else a

def stdMax (a b : F) : F := if FloatLike.lt a b then b else a

/-- `gmtl::Math::abs`. -/
def mathAbs (v : F) : F := if FloatLike.lt v (FloatLike.ofInt 0) then -v else v

/-- `gmtl::Point3f` and `gmtl::Vec3f`. -/
structure Point3 (F : Type) where
  x : F
  y : F
  z : F
  deriving DecidableEq

/-- `gmtl::AABoxf`. -/
structure AABox (F : Type) where
  min : Point3 F
  max : Point3 F
  deriving DecidableEq

/-- `gmtl::intersect` of two boxes: no axis separates them. -/
def intersect (box1 box2 : AABox F) : Bool :=
  if FloatLike.lt box2.max.x box1.min.x then false
  else if FloatLike.lt box2.max.y box1.min.y then false
  else if FloatLike.lt box2.max.z box1.min.z then false
  else if FloatLike.lt box1.max.x box2.min.x then false
  else if FloatLike.lt box1.max.y box2.min.y then false
  else if FloatLike.lt box1.max.z box2.min.z then false
  else true

/-- `gmtl::intersect` of a box and a point. -/
def intersectPoint (box : AABox F) (point : Point3 F) : Bool :=
  if FloatLike.lt point.x box.min.x then false
  else if FloatLike.lt point.y box.min.y then false
  else if FloatLike.lt point.z box.min.z then false
  else if FloatLike.lt box.max.x point.x then false
  else if FloatLike.lt box.max.y point.y then false
  else if FloatLike.lt box.max.z point.z then false
  else true

namespace Loc

/-- The world is `2 ^ lsize` units wide. -/
def lsize : Int := 8

/-- `ox`, `oy` and `oz`: `-(1 << (lsize - 1))`. -/
def origin : Int := -128

/-- `GetExtent`: the width of a cell. -/
def getExtent (a : Loc) : F := FloatLike.powf2 (lsize - a.l)

/-- `GetBBox`: the box of a cell, in the coordinates of the world. -/
def getBBox (a : Loc) : AABox F :=
  let dist : F := a.getExtent
  let at' := fun i : Int => FloatLike.ofInt origin + FloatLike.ofInt i * dist
  ⟨⟨at' a.x, at' a.y, at' a.z⟩, ⟨at' (a.x + 1), at' (a.y + 1), at' (a.z + 1)⟩⟩

end Loc

/-! ## Depth along the view direction

`gmtl::dot` is unrolled from the last component down. -/

def dot (v w : Point3 F) : F := v.z * w.z + (v.y * w.y + v.x * w.x)

/-- The eight corners of a box, in the order of the three loops of the source. -/
def corners (box : AABox F) : List (Point3 F) :=
  let m0 := box.min
  let m1 := box.max
  [⟨m0.x, m0.y, m0.z⟩, ⟨m0.x, m0.y, m1.z⟩, ⟨m0.x, m1.y, m0.z⟩, ⟨m0.x, m1.y, m1.z⟩,
    ⟨m1.x, m0.y, m0.z⟩, ⟨m1.x, m0.y, m1.z⟩, ⟨m1.x, m1.y, m0.z⟩, ⟨m1.x, m1.y, m1.z⟩]

/-- What `GetLocDistance` returns. -/
structure LocDistance (F : Type) where
  neardist : F
  middist : F
  fardist : F
  deriving DecidableEq

/-- `OctTileSelection::GetLocDistance`: how near and how far the corners of a cell are, along the
direction of view. -/
def getLocDistance (loc : Loc) (campos camdir : Point3 F) : LocDistance F :=
  let lens := (corners loc.getBBox).map fun pt =>
    dot camdir ⟨pt.x - campos.x, pt.y - campos.y, pt.z - campos.z⟩
  let minlen := lens.foldl stdMin FloatLike.maxVal
  let maxlen := lens.foldl stdMax (-FloatLike.maxVal)
  ⟨minlen, (minlen + maxlen) * FloatLike.powf2 (-1), maxlen⟩

/-! ## The box of a terrain tile

It is the cell's own, but as high as the heights reach. -/

/-- The loop over the heights in `Build` and in the constructor from a chunk. Without heights the
range is inside out. -/
def heightRange (heightData : List F) : F × F :=
  heightData.foldl (fun r val => (stdMin r.1 val, stdMax r.2 val))
    (FloatLike.maxVal, -FloatLike.maxVal)

/-- `m_heightBbox`. -/
def heightBox (l : Loc) (heightData : List F) : AABox F :=
  let box : AABox F := l.getBBox
  let range := heightRange heightData
  ⟨{ box.min with y := range.1 }, { box.max with y := range.2 }⟩

end

/-! ## Heights in memory -/

section

variable {F : Type} [FloatRep F]

/-- The heights as they are written to the database. -/
def heightBytes (heightData : List F) : List UInt8 :=
  Word.bytes (heightData.map FloatRep.toBits)

/-- And as they are read from it. -/
def heightsOfBytes (val : List UInt8) : List F := (Word.ofBytes val).map FloatRep.ofBits

/-- The bits are kept, so nothing is lost. -/
theorem heightsOfBytes_heightBytes (heightData : List F) :
    heightsOfBytes (heightBytes heightData) = heightData := by
  unfold heightsOfBytes heightBytes
  rw [Word.ofBytes_bytes, List.map_map]
  have hid : FloatRep.ofBits ∘ FloatRep.toBits = (id : F → F) := funext FloatRep.ofBits_toBits
  rw [hid, List.map_id]

end

end MapBg
