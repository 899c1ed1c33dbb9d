import DisplayList.Model.Container

/-!
# Files with bytes added

A reader only looks at bytes of regions that it has found to be within the file. So bytes
added at the end change nothing but the answer that a region is missing: a model, a wrong
magic number and a contradiction are final. A file that was cut short is either read as the
whole one is or refused for a missing region.
-/
namespace DisplayList

theorem Bytes.slice?_append {bytes part : Bytes} {start len : Nat}
    (h : bytes.slice? start len = some part) (more : Bytes) :
    (bytes ++ more).slice? start len = some part := by
  rw [slice?_eq] at h ⊢
  split at h
  · rename_i hle
    have hdrop : start ≤ bytes.length := by omega
    have htake : len ≤ (bytes.drop start).length := by
      rw [List.length_drop]
      omega
    rw [List.length_append, if_pos (by omega), List.drop_append_of_le_length hdrop,
      List.take_append_of_le_length htake, ← h]
  · cases h

namespace Container

variable {α β : Type} {total : Nat}

/-- What `x` answers about a file of `total` bytes is what `y` answers about a longer one, or it
is that a region reaches past the end. -/
def Settles (total : Nat) (x y : Except LoadError α) : Prop :=
  y = x ∨ ∃ r offset length, total < offset + length ∧
    x = .error (.outOfBounds r offset length total)

namespace Settles

protected theorem refl (x : Except LoadError α) : Settles total x x :=
  .inl rfl

/-- What is done with an answer is settled if the answer is. -/
theorem bind {x y : Except LoadError α} {f g : α → Except LoadError β} (h : Settles total x y)
    (hf : ∀ a, Settles total (f a) (g a)) : Settles total (x >>= f) (y >>= g) := by
  rcases h with rfl | ⟨r, offset, length, hend, rfl⟩
  · cases y with
    | error e => exact .refl _
    | ok a => exact hf a
  · exact .inr ⟨r, offset, length, hend, rfl⟩

theorem ok {x y : Except LoadError α} (h : Settles total x y) {a : α} (hx : x = .ok a) :
    y = .ok a := by
  rcases h with rfl | ⟨r, offset, length, -, rfl⟩
  · exact hx
  · cases hx

theorem error {x y : Except LoadError α} (h : Settles total x y) {e : LoadError}
    (hx : x = .error e) (he : ∀ r offset length, e ≠ .outOfBounds r offset length total) :
    y = .error e := by
  rcases h with rfl | ⟨r, offset, length, -, rfl⟩
  · exact hx
  · exact absurd (Except.error.inj hx).symm (he r offset length)

/-- The longer file is read as a model only if the shorter one is, or lacks a region. -/
theorem of_ok {x y : Except LoadError α} (h : Settles total x y) {a : α} (hy : y = .ok a) :
    x = .ok a ∨ ∃ r offset length, total < offset + length ∧
      x = .error (.outOfBounds r offset length total) := by
  rcases h with rfl | hmissing
  · exact .inl hy
  · exact .inr hmissing

end Settles

end Container

namespace Reading

open Container

variable (file more : Bytes) (r : Region) (setup collision : Nat)

theorem settles_region (offset length : Nat) : Settles file.length
    (plain.region file r offset length) (plain.region (file ++ more) r offset length) := by
  rw [plain_region, plain_region]
  cases h : file.slice? offset length with
  | some part => exact .inl (by rw [Bytes.slice?_append h])
  | none =>
    have hend : ¬ offset + length ≤ file.length := by
      rw [← Bytes.slice?_isSome, h]
      simp
    exact .inr ⟨r, offset, length, by omega, rfl⟩

theorem settles_readWord16 (offset : Nat) : Settles file.length
    (plain.readWord16 file r offset) (plain.readWord16 (file ++ more) r offset) :=
  (settles_region file more r offset 2).bind fun _ => .refl _

theorem settles_readWord32 (offset : Nat) : Settles file.length
    (plain.readWord32 file r offset) (plain.readWord32 (file ++ more) r offset) :=
  (settles_region file more r offset 4).bind fun _ => .refl _

theorem settles_readTextures : Settles file.length
    (plain.readTextures file setup).result (plain.readTextures (file ++ more) setup).result := by
  unfold readTextures
  split
  · exact .refl _
  · simp only [readTextureSetup, Logged.result_bind, Logged.result_liftM]
    refine (settles_readWord32 file more _ _).bind fun size => ?_
    refine (settles_readWord16 file more _ _).bind fun count => ?_
    refine (settles_region file more _ _ _).bind fun headers => ?_
    -- the headers are the same bytes now, so what they say is the same
    exact (settles_region file more _ _ _).bind fun data => .refl _

theorem settles_readCommands : Settles file.length
    (plain.readCommands file setup collision)
    (plain.readCommands (file ++ more) setup collision) := by
  refine (settles_readWord32 file more _ _).bind fun count => ?_
  exact (settles_region file more _ _ _).bind fun list => .refl _

theorem settles_readVertices : Settles file.length
    (plain.readVertices file setup) (plain.readVertices (file ++ more) setup) := by
  refine (settles_region file more _ _ _).bind fun _ => ?_
  refine (settles_readWord16 file more _ _).bind fun count => ?_
  exact (settles_region file more _ _ _).bind fun store => .refl _

theorem settles_load : Settles file.length
    (plain.load file).result (plain.load (file ++ more)).result := by
  simp only [load, Logged.result_bind, Logged.result_liftM]
  refine (settles_readWord32 file more _ _).bind fun found => ?_
  refine (Settles.refl _).bind fun _ => ?_
  refine (settles_region file more _ _ _).bind fun _ => ?_
  refine (settles_readWord16 file more _ _).bind fun textureSetup => ?_
  refine (settles_readWord32 file more _ _).bind fun displayListSetup => ?_
  refine (settles_readWord32 file more _ _).bind fun vertexSetup => ?_
  refine (settles_readWord32 file more _ _).bind fun collisionSetup => ?_
  refine (Settles.refl _).bind fun _ => ?_
  refine (Settles.refl _).bind fun _ => ?_
  refine (settles_readTextures file more _).bind fun textures => ?_
  refine (settles_readCommands file more _ _).bind fun commands => ?_
  exact (settles_readVertices file more _).bind fun vertices => .refl _

end Reading

namespace Model

/-- Bytes added to a file leave a model, a wrong magic number and a contradiction as they were.
So a file that is read as a model is, cut short anywhere, read as the same model or refused
because a region reaches past the end. -/
theorem load_append (file more : Bytes) :
    (∀ m, (load file).result = .ok m → (load (file ++ more)).result = .ok m) ∧
    (∀ found, (load file).result = .error (.badMagic found) →
      (load (file ++ more)).result = .error (.badMagic found)) ∧
    (∀ fault, (load file).result = .error (.inconsistent fault) →
      (load (file ++ more)).result = .error (.inconsistent fault)) ∧
    (∀ m, (load (file ++ more)).result = .ok m → (load file).result = .ok m ∨
      ∃ r offset length, file.length < offset + length ∧
        (load file).result = .error (.outOfBounds r offset length file.length)) := by
  have h := Reading.settles_load file more
  refine ⟨fun m hm => h.ok hm, fun found hfound => h.error hfound ?_,
    fun fault hfault => h.error hfault ?_, fun m hm => h.of_ok hm⟩
  · intro r offset length
    simp
  · intro r offset length
    simp

/-- A file whose display list holds one command and is followed by an empty vertex store. -/
def sampleFile : Bytes :=
  [0, 0, 0, 11] ++ .replicate 8 0 ++ [0, 0, 0, 0x20] ++ [0, 0, 0, 0x30] ++ .replicate 12 0 ++
    [0, 0, 0, 1, 0, 0, 0, 0] ++ [6, 0, 0, 0, 0, 0, 0, 0] ++ .replicate 0x18 0

/-- A first word with nothing after it but zeros. -/
def sampleHeader (last : UInt8) : Bytes :=
  0 :: 0 :: 0 :: last :: .replicate 28 0

/-- With a byte more it is the same model, and without its last byte it is none. A wrong magic
number stays wrong, and a header that names no display list names none later. -/
theorem load_append_sample : ∃ m, (load sampleFile).result = .ok m ∧
    (load (sampleFile ++ [255])).result = .ok m ∧
    (load (sampleHeader 12 ++ [255])).result = .error (.badMagic 12) ∧
    (load (sampleHeader 11 ++ sampleFile)).result = .error (.inconsistent .noDisplayList) ∧
    (load (sampleFile.dropLast ++ [0])).result = .ok m ∧
    ((load sampleFile.dropLast).result = .ok m ∨
      ∃ r offset length, sampleFile.dropLast.length < offset + length ∧
        (load sampleFile.dropLast).result =
          .error (.outOfBounds r offset length sampleFile.dropLast.length)) :=
  ⟨_, rfl, (load_append sampleFile [255]).1 _ rfl,
    (load_append (sampleHeader 12) [255]).2.1 _ rfl,
    (load_append (sampleHeader 11) sampleFile).2.2.1 _ rfl, rfl,
    (load_append sampleFile.dropLast [0]).2.2.2 _ rfl⟩

end Model

end DisplayList
