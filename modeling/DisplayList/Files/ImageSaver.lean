import DisplayList.Files.Tree
import DisplayList.Texture.Basic

/-!
# Saving images

How images become files is not settled here. A scene is written with whatever saves images,
and gets back that it did or why it did not.
-/
namespace DisplayList

/-- Saves an image at a path of a tree, or says in words why not. What it did before it
failed stays done. -/
abbrev ImageSaver := FileTree → Path → PixelBuffer → Except String Unit × FileTree

end DisplayList
