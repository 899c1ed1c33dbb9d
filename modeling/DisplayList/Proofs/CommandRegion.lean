import DisplayList.Proofs.Acceptance

/-!
# Where commands come from

Each command of a model is a row of eight bytes of its file, counted from eight bytes after the
display list setup. A collision setup behind the display list setup is behind all commands, so
what stands there and after it is never read as one. A collision setup that is not
behind it sets no bound.
-/
namespace DisplayList

namespace Command

/-- The commands cut from bytes are made of those bytes in order. -/
theorem byte_of_ofBytes {bytes : Bytes} {i : Nat} {c : Command} (h : (ofBytes bytes)[i]? = some c)
    {k : Nat} (hk : k < 8) : c.bytes[k] = bytes.byteAt (8 * i + k) := by
  fun_induction ofBytes bytes generalizing i with
  | case1 a b d e f g j l rest ih =>
    cases i with
    | zero =>
      obtain rfl := Option.some.inj h
      interval_cases k <;> rfl
    | succ i =>
      rw [ih h, Bytes.byteAt, Bytes.byteAt, show 8 * (i + 1) + k = 8 * i + k + 8 by omega]
      rfl
  | case2 => cases h

end Command

namespace Container

open Bytes Reading

variable {file : Bytes} {setup collision : Nat} {commands : Array Command}

/-- Commands are those of the display list at `setup`, which lies within the file. -/
structure ListedAt (file : Bytes) (setup : Nat) (commands : Array Command) : Prop where
  size_eq : commands.size = (file.word32At setup).toNat
  within : setup + 8 + 8 * commands.size ≤ file.length
  byte_eq : ∀ (i : Nat) c, commands[i]? = some c → ∀ (k : Nat) (hk : k < 8),
    c.bytes[k] = file.byteAt (setup + 8 + (8 * i + k))

theorem listedAt_of_read (h : plain.readCommands file setup collision = .ok commands) :
    ListedAt file setup commands := by
  simp only [readCommands, plain_addSizes, plain_mulSizes, plain_commands, ok_bind,
    bind_eq_ok_iff, readWord32_eq_ok_iff, region_eq_ok_iff, ensure_eq_ok_iff] at h
  obtain ⟨count, ⟨-, rfl⟩, list, ⟨hlist, rfl⟩, -, -, hcommands⟩ := h
  obtain rfl := Except.ok.inj hcommands
  have hlength : ((file.drop (setup + 8)).take ((file.word32At setup).toNat * 8)).length =
      (file.word32At setup).toNat * 8 := by
    rw [List.length_take, List.length_drop]
    omega
  have hsize : (Command.ofBytes ((file.drop (setup + 8)).take
      ((file.word32At setup).toNat * 8))).toArray.size = (file.word32At setup).toNat := by
    rw [List.size_toArray, Command.length_ofBytes, hlength, Nat.mul_div_cancel _ (by decide)]
  refine ⟨hsize, by omega, fun i c hc k hk => ?_⟩
  have hi := (Array.getElem?_eq_some_iff.mp hc).1
  rw [Command.byte_of_ofBytes (by simpa using hc) hk, byteAt_take_drop (by omega)]

/-- The same bytes from the setup to the end of the list give the same commands. -/
theorem ListedAt.eq_of_agree {file' : Bytes} {commands' : Array Command}
    (h : ListedAt file setup commands) (h' : ListedAt file' setup commands')
    (hagree : ∀ k, setup ≤ k → k < setup + 8 + 8 * commands.size →
      file'.byteAt k = file.byteAt k) : commands' = commands := by
  have hcount : file'.word32At setup = file.word32At setup := by
    simp only [Bytes.word32At]
    rw [hagree _ (by omega) (by omega), hagree _ (by omega) (by omega),
      hagree _ (by omega) (by omega), hagree _ (by omega) (by omega)]
  have hsize : commands'.size = commands.size := by
    rw [h'.size_eq, h.size_eq, hcount]
  refine Array.ext hsize fun i hi' hi => ?_
  have hbytes : commands'[i].bytes = commands[i].bytes := Vector.ext fun k hk => by
    rw [h'.byte_eq i _ (Array.getElem?_eq_getElem hi') k hk,
      h.byte_eq i _ (Array.getElem?_eq_getElem hi) k hk, hagree _ (by omega) (by omega)]
  exact congrArg Command.mk hbytes

end Container

namespace Model

open Container Reading

variable {file : Bytes} {m : Model}

/-- Where the display list setup of a file stands. -/
def listSetup (file : Bytes) : Nat := (file.word32At 0x0C).toNat

/-- Where the collision setup of a file stands; zero if it has none. -/
def collisionSetup (file : Bytes) : Nat := (file.word32At 0x1C).toNat

/-- The parts of a model are read where the header of its file says. -/
theorem parts_of_load (h : (load file).result = .ok m) :
    (plain.readTextures file (file.word16At 0x08).toNat).result =
      .ok (m.textures, m.textureData) ∧
    plain.readCommands file (listSetup file) (collisionSetup file) = .ok m.commands ∧
    plain.readVertices file (file.word32At 0x10).toNat = .ok m.vertices := by
  simp only [load, Reading.load, Logged.result_bind, Logged.result_liftM, Logged.result_pure,
    Logged.result_note, bind_eq_ok_iff, readWord32_eq_ok_iff, readWord16_eq_ok_iff,
    region_eq_ok_iff, ensure_eq_ok_iff] at h
  obtain ⟨_, ⟨-, rfl⟩, -, -, _, -, _, ⟨-, rfl⟩, _, ⟨-, rfl⟩, _, ⟨-, rfl⟩, _, ⟨-, rfl⟩, -, -, -, -,
    textures, htextures, commands, hcommands, vertices, hvertices, -, -, hm⟩ := h
  obtain rfl := Except.ok.inj hm
  exact ⟨htextures, hcommands, hvertices⟩

/-- Which bytes of a file its commands are: those of a list within the file. It ends before a
collision setup that comes after the display list setup, and then no other file with the same
bytes before the collision setup has other commands. A collision setup that comes no later is as
good as none. -/
structure CommandsPlaced (file : Bytes) (m : Model) : Prop where
  listed : ListedAt file (listSetup file) m.commands
  ends_before : listSetup file < collisionSetup file →
    listSetup file + 8 + 8 * m.commands.size ≤ collisionSetup file
  unaffected : listSetup file < collisionSetup file → ∀ file' m', (load file').result = .ok m' →
    listSetup file' = listSetup file →
    (∀ k < collisionSetup file, file'.byteAt k = file.byteAt k) → m'.commands = m.commands
  unbounded : collisionSetup file ≤ listSetup file →
    plain.readCommands file (listSetup file) (collisionSetup file) =
      plain.readCommands file (listSetup file) 0

theorem commands_placed (file : Bytes) (m : Model) (hload : (load file).result = .ok m) :
    CommandsPlaced file m := by
  obtain ⟨-, hcommands, -⟩ := parts_of_load hload
  have hlisted := listedAt_of_read hcommands
  have hends (hlt : listSetup file < collisionSetup file) :
      listSetup file + 8 + 8 * m.commands.size ≤ collisionSetup file := by
    have hends := (succeeds_load_iff.mp ⟨m, hload⟩).commands.ends_before hlt
    have hsize := hlisted.size_eq
    unfold listSetup collisionSetup at *
    omega
  refine ⟨hlisted, hends, fun hlt file' m' hload' hsetup hagree => ?_, fun hle => ?_⟩
  · obtain ⟨-, hcommands', -⟩ := parts_of_load hload'
    have hlisted' := listedAt_of_read hcommands'
    rw [hsetup] at hlisted'
    refine hlisted.eq_of_agree hlisted' fun k _ hk => hagree k ?_
    have hend := hends hlt
    omega
  · have hnever : ¬ listSetup file < collisionSetup file := by omega
    simp only [readCommands, plain_addSizes, plain_mulSizes, ok_bind, ensure, hnever,
      Nat.not_lt_zero, false_implies, if_true]

/-- One command, and behind it an empty vertex store, which the collision setup is named to be. -/
def sampleBounded : Bytes :=
  [0, 0, 0, 11] ++ .replicate 8 0 ++ [0, 0, 0, 0x20] ++ [0, 0, 0, 0x30] ++ .replicate 8 0 ++
    [0, 0, 0, 0x30] ++ [0, 0, 0, 1, 0, 0, 0, 0] ++ [6, 0, 0, 0, 0, 0, 0, 0] ++ .replicate 0x18 0

theorem commands_placed_bounded : ∃ m, (load sampleBounded).result = .ok m ∧
    listSetup sampleBounded = 0x20 ∧ collisionSetup sampleBounded = 0x30 ∧
    CommandsPlaced sampleBounded m :=
  ⟨_, rfl, by decide, by decide, commands_placed sampleBounded _ rfl⟩

/-- The same with the collision setup in the header, before the display list. -/
def sampleBehind : Bytes :=
  [0, 0, 0, 11] ++ .replicate 8 0 ++ [0, 0, 0, 0x20] ++ [0, 0, 0, 0x30] ++ .replicate 8 0 ++
    [0, 0, 0, 0x10] ++ [0, 0, 0, 1, 0, 0, 0, 0] ++ [6, 0, 0, 0, 0, 0, 0, 0] ++ .replicate 0x18 0

/-- A display list need not end before the collision setup: this one is read from behind it. -/
theorem not_ends_before_behind : ∃ m, (load sampleBehind).result = .ok m ∧
    collisionSetup sampleBehind ≠ 0 ∧ m.commands.size = 1 ∧
    (∃ c, m.commands[0]? = some c ∧
      c.code = sampleBehind.byteAt (listSetup sampleBehind + 8) ∧
      collisionSetup sampleBehind ≤ listSetup sampleBehind + 8) ∧
    ¬ listSetup sampleBehind + 8 + 8 * m.commands.size ≤ collisionSetup sampleBehind :=
  ⟨_, rfl, by decide, rfl, ⟨_, rfl, rfl, by decide⟩, by decide⟩

end Model

end DisplayList
