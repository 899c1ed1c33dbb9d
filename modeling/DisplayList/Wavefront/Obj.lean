import DisplayList.Decimal.Positional
import DisplayList.Lines
import DisplayList.Numeral
import DisplayList.Scene

/-!
# Scenes as OBJ text

An OBJ file lists vertices, texture coordinates and faces line by line. Both kinds of
list are numbered from 1 on through the whole file, so the faces of a mesh count on
from the vertices of all meshes before it.
-/
namespace DisplayList.Wavefront

/-- A line of an OBJ file. -/
inductive ObjLine
  | counts (meshes faces : Nat)
  | library (name : String)
  | object (index : Nat)
  | useMaterial (name : String)
  | vertex (position : Position) (colour : Colour)
  | texCoord (uv : TexCoord)
  /-- A face by the numbers of its corners, the same for vertices and coordinates. -/
  | face (corners : Triangle Nat)
  deriving DecidableEq, Repr

namespace ObjLine

/-- Colours are written as fractions of full intensity. -/
def fraction (channel : Float32) : Float32 :=
  channel / 255

/-- Numbers with a space between. -/
def floats (xs : List Float32) : String :=
  " ".intercalate (xs.map floatText)

def text : ObjLine → String
  | counts meshes faces => s!"# Meshes: {meshes}, Faces: {faces}"
  | library name => "mtllib " ++ name
  | object index => "o mesh_" ++ Numeral.decimal 4 index
  | useMaterial name => "usemtl " ++ name
  | vertex p c =>
    "v " ++ floats [p.x, p.y, p.z, fraction c.red, fraction c.green, fraction c.blue]
  | texCoord uv => "vt " ++ floats [uv.u, uv.v]
  | face t => s!"f {t.a}/{t.a} {t.b}/{t.b} {t.c}/{t.c}"

end ObjLine

/-- The name of a material; what names none is drawn without a texture. -/
def materialName (materials : Array Material) (index : Nat) : String :=
  (materials[index]?.map Material.name).getD Material.nullName

/-- The lines of the mesh at `index`, whose first vertex has the number `base`. -/
def meshLines (materials : Array Material) (index base : Nat) (m : Mesh) : List ObjLine :=
  [.object index, .useMaterial (materialName materials m.material)] ++
    m.positions.toList.zipWith ObjLine.vertex m.colours.toList ++
    m.uvs.toList.map ObjLine.texCoord ++
    m.faces.toList.map fun f => .face (f.map fun n => n.toNat + base)

/-- The lines of meshes from `index` on, numbered from `base` on. -/
def meshesLines (materials : Array Material) : Nat → Nat → List Mesh → List ObjLine
  | _, _, [] => []
  | index, base, m :: rest =>
    meshLines materials index base m ++
      meshesLines materials (index + 1) (base + m.vertexCount) rest

/-- The lines of a scene whose materials are in the file `library`. -/
def objLines (s : Scene) (library : String) : List ObjLine :=
  [.counts s.meshes.size s.faceCount, .library library] ++
    meshesLines s.materials 0 1 s.meshes.toList

/-- The OBJ text of a scene. -/
def objText (s : Scene) (library : String) : String :=
  joinLines ((objLines s library).map ObjLine.text)

end DisplayList.Wavefront
