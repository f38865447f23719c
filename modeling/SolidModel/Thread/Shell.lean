import SolidModel.Polyhedron.Basic
import SolidModel.Thread.Section

/-!
# The shell of a thread

The shell is the thread without its core: sections placed at equal steps up a helix, joined by
triangles, with a triangle pair at either end. Where the thread runs in, the crests of the
sections grow from the minor diameter step by step, and where it runs out they shrink back.

Six tables say how the four points of a section are joined to those of the next, for right-hand
threads and, run the other way, for left-hand ones.
-/

namespace SolidModel

/-- The measures of a thread; angles in degrees, the number of segments per turn. -/
structure ThreadSpec (K : Type) where
  minor : K
  major : K
  pitch : K
  length : K
  segments : Int
  leadIn : K
  leadOut : K
  leftHand : Bool

namespace Thread

variable {K : Type}

/-! ## Joining sections -/

/-- The end of a thread that the first section closes. -/
def startFaces (leftHand : Bool) : List Face :=
  if leftHand then [[2, 1, 0], [3, 1, 2]] else [[0, 1, 2], [2, 1, 3]]

/-- The faces between a section, at 0 to 3, and the next, at 4 to 7. -/
def stepFaces (leftHand : Bool) : List Face :=
  if leftHand then
    [[3, 5, 1], [7, 5, 3], [1, 4, 0], [5, 4, 1], [0, 6, 2], [4, 6, 0], [2, 7, 3], [6, 7, 2]]
  else
    [[1, 5, 3], [3, 5, 7], [0, 4, 1], [1, 4, 5], [2, 6, 0], [0, 6, 4], [3, 7, 2], [2, 7, 6]]

/-- The end of a thread that the last section, at 4 to 7, closes. -/
def endFaces (leftHand : Bool) : List Face :=
  if leftHand then [[5, 7, 6], [4, 5, 6]] else [[6, 7, 5], [6, 5, 4]]

/-- Faces shifted by a number of positions. -/
def shiftedFaces (offset : Int) (faces : List Face) : List Face := faces.map (·.map (· + offset))

/-- All faces of a thread with `steps` sections. -/
def faces (leftHand : Bool) (steps : Nat) : List Face :=
  startFaces leftHand ++
    ((List.range (steps - 1)).flatMap fun step => shiftedFaces (4 * step : Nat)
      (stepFaces leftHand)) ++
    shiftedFaces (4 * (steps - 2) : Nat) (endFaces leftHand)

variable [Scalar K]

/-! ## Sections along the thread -/

/-- What the measures of a thread come to. -/
structure Plan (K : Type) where
  leftHand : Bool
  /-- How many sections there are. -/
  steps : Nat
  /-- The angle from one section to the next. -/
  angle : K
  /-- The rise from one section to the next. -/
  rise : K
  /-- Are the first sections lower? -/
  leadsIn : Bool
  /-- Are the last sections lower? -/
  leadsOut : Bool
  /-- Over how many steps the thread runs in. -/
  leadInSteps : Int
  /-- Over how many steps the thread runs out. -/
  leadOutSteps : Int
  full : ThreadSection K
  /-- The first section. -/
  start : ThreadSection K
  /-- The crests with which the thread ends. -/
  endTop : Point3 K
  endBottom : Point3 K

/-- Where the thread stands between two sections: how far it has run in and out, and the sections
that come next on the way in and on the way out. -/
structure Progress (K : Type) where
  leadInStep : Int
  leadIn : ThreadSection K
  leadOutStep : Int
  leadOut : ThreadSection K

namespace Plan

/-- The first section on the way in, and how far the thread runs in until it is full. -/
def initial (p : Plan K) : Progress K := ⟨3, p.start, p.leadOutSteps, p.full⟩

/-- The section at a step, and the progress after it. -/
def next (p : Plan K) (step : Nat) (g : Progress K) : ThreadSection K × Progress K :=
  if p.leadsIn ∧ g.leadInStep < p.leadInSteps then
    let n := p.leadInSteps
    let reached := g.leadInStep + 1
    let following := p.full.withCrest (stepped p.start.crestTop p.full.crestTop n reached)
      (stepped p.start.crestBottom p.full.crestBottom n reached)
    (g.leadIn, { g with leadInStep := reached, leadIn := following })
  else if p.leadsOut ∧ 0 < g.leadOutStep ∧ (p.steps : Int) - p.leadOutSteps ≤ step then
    let n := p.leadOutSteps
    let left := g.leadOutStep - 1
    let following := p.full.withCrest (stepped p.full.crestTop p.endTop n (n - left))
      (stepped p.full.crestBottom p.endBottom n (n - left))
    (g.leadOut, { g with leadOutStep := left, leadOut := following })
  else (p.full, g)

/-- `count` sections from `step` on. -/
def sectionsFrom (p : Plan K) : (count step : Nat) → Progress K → List (ThreadSection K)
  | 0, _, _ => []
  | count + 1, step, g =>
    let (s, after) := p.next step g
    s :: p.sectionsFrom count (step + 1) after

/-- The sections behind the first. -/
def laterSections (p : Plan K) : List (ThreadSection K) :=
  p.sectionsFrom (p.steps - 1) 0 p.initial

/-- The angle at which the section behind `step` others is placed. -/
def angleAt (p : Plan K) (step : Nat) : K :=
  let angle := p.angle * Scalar.ofNat (step + 1)
  if p.leftHand then -angle else angle

/-- The height at which the section behind `step` others and the first is placed. -/
def heightAt (p : Plan K) (step : Nat) : K := p.rise * Scalar.ofNat step

/-- The points of all sections in their places; the first one stands at angle and height zero. -/
def points [Trig K] (p : Plan K) : Except (Fault K) (List (Point3 K)) := do
  let first ← p.start.placed 0.0 0.0
  let later ← p.laterSections.zipIdx.mapM fun (s, step) =>
    s.placed (p.angleAt step) (p.heightAt step)
  return first ++ later.flatten

end Plan

/-- The length that sections are spread over: the last section itself takes up the rest. -/
def spread (t : ThreadSpec K) : K := t.length - 0.7 * t.pitch

/-- Works out the sections of a thread, if its measures fit. -/
def plan (t : ThreadSpec K) : Except (Fault K) (Plan K) := do
  if t.pitch ≤ 0.0 then throw (.threadPitch t.pitch)
  if t.major ≤ t.minor then throw (.threadDiameters t.major t.minor)
  if t.segments < 3 then throw (.threadSegments t.segments)
  let perTurn : K := Scalar.ofInt t.segments
  let steps ← Scalar.toInt (spread t / t.pitch * perTurn)
  if steps < 2 then throw (.threadLength t.length t.pitch)
  let leadInSteps ← Scalar.toInt (perTurn * t.leadIn / 360.0 + 2.0)
  let leadOutSteps ← Scalar.toInt (perTurn * t.leadOut / 360.0)
  let full := ThreadSection.full t.minor t.major t.pitch
  let flushTop := ThreadSection.flushTop t.minor t.pitch
  let flushBottom := ThreadSection.flushBottom t.minor t.pitch
  if leadInSteps = 0 then throw .divisionByZero
  let runsOut := decide (0 < leadOutSteps)
  return {
    leftHand := t.leftHand
    steps := steps.toNat
    angle := 360.0 / perTurn
    rise := spread t / Scalar.ofInt steps
    leadsIn := decide (0.0 < t.leadIn)
    leadsOut := decide (0.0 < t.leadOut)
    leadInSteps
    leadOutSteps
    full
    start := full.withCrest (stepped flushTop full.crestTop leadInSteps 2)
      (stepped flushBottom full.crestBottom leadInSteps 2)
    endTop := if runsOut then stepped flushTop full.crestTop leadOutSteps 1 else full.crestTop
    endBottom :=
      if runsOut then stepped flushBottom full.crestBottom leadOutSteps 1
      else full.crestBottom }

/-- The shell of a thread. -/
def shell [Trig K] (t : ThreadSpec K) : Except (Fault K) (Polyhedron K) := do
  let p ← plan t
  return {
    points := ← p.points
    faces := faces t.leftHand p.steps
    procedure := some (.thread t.minor t.major t.pitch t.length) }

end Thread

end SolidModel
