import DisplayList.Wavefront.Obj

/-!
# Materials as MTL text

An MTL file names the materials that an OBJ file uses, each in full colour and with
the image of its texture, if it has one.
-/
namespace DisplayList.Wavefront

/-- A line of an MTL file. -/
inductive MtlLine
  | count (materials : Nat)
  | blank
  | newMaterial (name : String)
  | fullColour
  | image (clamped : Bool) (name : String)
  deriving DecidableEq, Repr

namespace MtlLine

def text : MtlLine → String
  | count materials => s!"# Materials: {materials}"
  | blank => ""
  | newMaterial name => "newmtl " ++ name
  | fullColour => "Kd 1.0 1.0 1.0"
  | image true name => "map_Kd -clamp on " ++ name
  | image false name => "map_Kd " ++ name

end MtlLine

/-- The lines of one material. -/
def materialLines (m : Material) (image : Option String) : List MtlLine :=
  [.blank, .newMaterial m.name, .fullColour] ++ (image.map (.image m.clamps)).toList

/-- The lines of materials, each with the name of its image. -/
def mtlLines (materials : List Material) (images : List (Option String)) : List MtlLine :=
  .count materials.length :: (materials.zipWith materialLines images).flatten

/-- The MTL text of materials, each with the name of its image. -/
def mtlText (materials : List Material) (images : List (Option String)) : String :=
  joinLines ((mtlLines materials images).map MtlLine.text)

end DisplayList.Wavefront
