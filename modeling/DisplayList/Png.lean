import DisplayList.Checksum
import DisplayList.Files.ImageSaver

/-!
# Images as PNG files

An image is written as four channels of eight bits, without filters and without
compression. Reading takes back what is written so and nothing else. This is one way to
save images; nothing but the program itself depends on it.
-/
namespace DisplayList.Png

/-- The first bytes of every PNG file. -/
def signature : Bytes :=
  [0x89, 0x50, 0x4E, 0x47, 0x0D, 0x0A, 0x1A, 0x0A]

/-- A chunk: its length, its type, its data, and a check over the last two. -/
def chunk (type : String) (data : Bytes) : Bytes :=
  let body := Bytes.ofText type ++ data
  Bytes.ofWord32 (.ofNat data.length) ++ body ++ Bytes.ofWord32 (Checksum.crc32 body)

/-- The header chunk's data: dimensions, eight bits a channel, colour with alpha, and
the only methods of compression, filtering and interlacing that are in use here. -/
def header (width height : UInt32) : Bytes :=
  Bytes.ofWord32 width ++ Bytes.ofWord32 height ++ [8, 6, 0, 0, 0]

/-- Rows of `size` bytes, each behind the mark of a row without filter. -/
def filteredRows (size : Nat) : Nat → Bytes → Bytes
  | 0, _ => []
  | rows + 1, bytes => 0 :: (bytes.take size ++ filteredRows size rows (bytes.drop size))

/-- The most bytes in a stored block. -/
def blockSize : Nat := 65535

/-- A word of 16 bits, the less significant byte first. -/
def littleEndian16 (n : Nat) : Bytes :=
  [UInt8.ofNat n, UInt8.ofNat (n / 256)]

/-- One stored block: a mark, the length and its complement, and the bytes as they are. -/
def storedBlock (final : Bool) (bytes : Bytes) : Bytes :=
  (if final then 1 else 0) :: littleEndian16 bytes.length ++
    littleEndian16 (65535 - bytes.length) ++ bytes

/-- Bytes in `full` stored blocks of the greatest size and a last one. -/
def storedBlocks : Nat → Bytes → Bytes
  | 0, bytes => storedBlock true bytes
  | full + 1, bytes =>
    storedBlock false (bytes.take blockSize) ++ storedBlocks full (bytes.drop blockSize)

/-- Bytes as a compressed stream that compresses nothing. -/
def stored (bytes : Bytes) : Bytes :=
  [0x78, 0x01] ++ storedBlocks (bytes.length / blockSize) bytes ++
    Bytes.ofWord32 (Checksum.adler32 bytes)

/-- The file of an image. -/
def encode (p : PixelBuffer) : Bytes :=
  signature ++ chunk "IHDR" (header p.width p.height) ++
    chunk "IDAT" (stored (filteredRows (4 * p.width.toNat) p.height.toNat p.rgba)) ++
    chunk "IEND" []

/-- The bytes in stored blocks, of which `full` are of the greatest size. -/
def storedBytes : Nat → Bytes → Bytes
  | 0, blocks => blocks.drop 5
  | full + 1, blocks =>
    (blocks.drop 5).take blockSize ++ storedBytes full (blocks.drop (5 + blockSize))

/-- The bytes of `rows` rows of `size` bytes behind their marks. -/
def unfilteredRows (size : Nat) : Nat → Bytes → Bytes
  | 0, _ => []
  | rows + 1, bytes =>
    (bytes.drop 1).take size ++ unfilteredRows size rows (bytes.drop (size + 1))

/-- The image in a file that `encode` wrote; there is none in any other. -/
def decode? (file : Bytes) : Option PixelBuffer :=
  let width := file.word32At 16
  let height := file.word32At 20
  let length := (4 * width.toNat + 1) * height.toNat
  if file.length < length then none
  else
    let blocks := (file.drop 43).take (length + 5 * (length / blockSize + 1))
    let image : PixelBuffer := ⟨width, height,
      unfilteredRows (4 * width.toNat) height.toNat (storedBytes (length / blockSize) blocks)⟩
    if encode image = file then some image else none

/-- Why an image has no file, if it has none: without extent there is nothing to write, and
its bytes have to be those of its pixels. -/
def refusal? (p : PixelBuffer) : Option String :=
  if p.width = 0 ∨ p.height = 0 then some "image has no extent"
  else if p.rgba.length ≠ 4 * p.width.toNat * p.height.toNat then
    some "image has not as many bytes as its extent asks for"
  else none

/-- What is written for an image: its file, or nothing if it is refused. -/
def file (p : PixelBuffer) : Bytes :=
  if (refusal? p).isSome then [] else encode p

/-- What is said of an image once it is written. -/
def verdict (p : PixelBuffer) : Except String Unit :=
  (refusal? p).elim (.ok ()) .error

/-- Saves images as PNG files. The file of an image that is refused is left empty. -/
def save : ImageSaver := fun t path image =>
  match t.write path (file image) with
  | .ok written => (verdict image, written)
  | .error e => (.error e.message, t)

end DisplayList.Png
