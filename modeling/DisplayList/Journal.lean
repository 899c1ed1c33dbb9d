import DisplayList.Diagnostic
import DisplayList.Texture.Format

/-!
# The journal

Everything that happens on the way from a file to a scene is written into a journal,
in order: the recoverable problems, and notes on the progress. `Logged` computations
carry the journal beside their result, which does not depend on it: `result_bind`
says that results compose as those of plain fallible computations do.
-/
namespace DisplayList

/-- How much an entry matters. -/
inductive Level
  | debug
  | info
  | warn
  deriving DecidableEq, Repr

namespace Level

def name : Level → String
  | debug => "DEBUG"
  | info => "INFO"
  | warn => "WARN"

end Level

/-- A note on the progress. -/
inductive Note
  | textureRead (index : Nat) (format : TexelFormat) (width height offset : UInt32)
  | modelRead (vertices textures commands : Nat)
  | materialCreated (material texture : Nat)
  | batchOpened (batch material : Nat) (epoch : UInt32)
  | commandsDecoded (commands batches materials : Nat)
  | batchSkipped (batch : Nat)
  | meshesAssembled (meshes faces : Nat)
  | conversionStarted (path : String)
  | fileRead (length : Nat) (path : String)
  | problemsFound (count : Nat) (path : String)
  | imageWritten (path : String)
  | sceneWritten (path : String) (meshes faces : Nat)
  deriving DecidableEq, Repr

namespace Note

def level : Note → Level
  | textureRead .. | materialCreated .. | batchOpened .. | batchSkipped .. => .debug
  | problemsFound .. => .warn
  | _ => .info

def message : Note → String
  | textureRead index format width height offset =>
    s!"Texture {index}: {format.name} {width}×{height} at " ++ Numeral.hexadecimal 1 offset.toNat
  | modelRead vertices textures commands =>
    s!"Model: {vertices} vertices, {textures} textures, {commands} commands"
  | materialCreated material texture => s!"Material {material} created for texture {texture}"
  | batchOpened batch material epoch =>
    s!"Opening batch {batch} (material {material}, epoch {epoch})"
  | commandsDecoded commands batches materials =>
    s!"Decoded {commands} commands into {batches} batches, {materials} materials"
  | batchSkipped batch => s!"Batch {batch} has no triangles, skipped"
  | meshesAssembled meshes faces => s!"Assembled {meshes} meshes, {faces} faces"
  | conversionStarted path => s!"Converting model: {path}"
  | fileRead length path => s!"Read {length} bytes from {path}"
  | problemsFound count path => s!"{count} recoverable problems while decoding {path}"
  | imageWritten path => s!"Wrote texture {path}"
  | sceneWritten path meshes faces => s!"Wrote {path} ({meshes} meshes, {faces} faces)"

end Note

/-- One entry of a journal. -/
inductive Entry
  | problem (diagnostic : Diagnostic)
  | note (note : Note)
  deriving DecidableEq, Repr

namespace Entry

/-- The problem that an entry reports, if it reports one. -/
def diagnostic? : Entry → Option Diagnostic
  | problem d => some d
  | note _ => none

def level : Entry → Level
  | problem _ => .warn
  | note n => n.level

def message : Entry → String
  | problem d => d.message
  | note n => n.message

/-- An entry as one line, its level in front. -/
def line (e : Entry) : String :=
  e.level.name ++ " " ++ e.message

end Entry

/-- What was recorded, the earliest entry first. -/
abbrev Journal := List Entry

namespace Journal

/-- The problems in a journal, in order. -/
def diagnostics (j : Journal) : List Diagnostic :=
  j.filterMap Entry.diagnostic?

def lines (j : Journal) : List String :=
  j.map Entry.line

@[simp] theorem diagnostics_nil : diagnostics [] = [] := rfl

@[simp] theorem diagnostics_append (i j : Journal) :
    diagnostics (i ++ j) = diagnostics i ++ diagnostics j :=
  List.filterMap_append

@[simp] theorem diagnostics_problem (d : Diagnostic) (j : Journal) :
    diagnostics (.problem d :: j) = d :: diagnostics j := rfl

@[simp] theorem diagnostics_note (n : Note) (j : Journal) :
    diagnostics (.note n :: j) = diagnostics j := rfl

end Journal

/-- The result of a computation that may fail, and what was recorded until it ended. -/
structure Logged (ε α : Type) where
  result : Except ε α
  journal : Journal

namespace Logged

/-- A computation that records nothing. -/
def ofExcept (r : Except ε α) : Logged ε α :=
  ⟨r, []⟩

/-- Records one entry. -/
def record (e : Entry) : Logged ε Unit :=
  ⟨.ok (), [e]⟩

/-- Records entries in order. -/
def recordAll (j : Journal) : Logged ε Unit :=
  ⟨.ok (), j⟩

/-- Records a note. -/
def note (n : Note) : Logged ε Unit :=
  record (.note n)

def bind (x : Logged ε α) (f : α → Logged ε β) : Logged ε β :=
  match x.result with
  | .error e => ⟨.error e, x.journal⟩
  | .ok a =>
    let y := f a
    ⟨y.result, x.journal ++ y.journal⟩

/-- Goes on as `bind` does with a computation of another monad. -/
def bindIn {M : Type → Type} [Monad M] (x : Logged ε α) (f : α → M (Logged ε β)) :
    M (Logged ε β) :=
  match x.result with
  | .error e => return ⟨.error e, x.journal⟩
  | .ok a => do
    let y ← f a
    return ⟨y.result, x.journal ++ y.journal⟩

/-- The same computation with another kind of failure. -/
def mapError (f : ε → δ) (x : Logged ε α) : Logged δ α :=
  ⟨x.result.mapError f, x.journal⟩

instance : Monad (Logged ε) where
  pure a := ofExcept (.ok a)
  bind := bind

instance : MonadExceptOf ε (Logged ε) where
  throw e := ofExcept (.error e)
  tryCatch x handler :=
    match x.result with
    | .ok _ => x
    | .error e =>
      let y := handler e
      ⟨y.result, x.journal ++ y.journal⟩

instance : MonadLift (Except ε) (Logged ε) where
  monadLift := ofExcept

@[simp] theorem result_ofExcept (r : Except ε α) : (ofExcept r).result = r := rfl

@[simp] theorem result_record (e : Entry) : (record e : Logged ε Unit).result = .ok () := rfl

@[simp] theorem result_recordAll (j : Journal) :
    (recordAll j : Logged ε Unit).result = .ok () := rfl

@[simp] theorem result_throw (e : ε) : (throw e : Logged ε α).result = .error e := rfl

@[simp] theorem result_note (n : Note) : (note n : Logged ε Unit).result = .ok () := rfl

@[simp] theorem result_pure (a : α) : (pure a : Logged ε α).result = .ok a := rfl

@[simp] theorem result_liftM (r : Except ε α) : (liftM r : Logged ε α).result = r := rfl

@[simp] theorem result_mapError (f : ε → δ) (x : Logged ε α) :
    (x.mapError f).result = x.result.mapError f := rfl

theorem run_bindIn (x : Logged ε α) (f : α → Id (Logged ε β)) :
    Id.run (x.bindIn f) = x >>= fun a => Id.run (f a) := by
  show _ = bind x fun a => Id.run (f a)
  unfold bindIn bind
  cases x.result <;> rfl

@[simp] theorem result_bind (x : Logged ε α) (f : α → Logged ε β) :
    (x >>= f).result = x.result >>= fun a => (f a).result := by
  show (bind x f).result = _
  unfold bind
  cases x.result <;> rfl

end Logged

/-- A fallible computation whose first step succeeds goes on with what that step found. -/
theorem ok_bind {ε α β : Type} (a : α) (f : α → Except ε β) : (.ok a >>= f) = f a := rfl

/-- A traversal in which nothing fails is a plain one. -/
theorem mapM_eq_ok {ε α β : Type} {f : α → Except ε β} {g : α → β} {xs : List α}
    (h : ∀ x ∈ xs, f x = .ok (g x)) : xs.mapM f = .ok (xs.map g) := by
  induction xs with
  | nil => rfl
  | cons x xs ih =>
    rw [List.forall_mem_cons] at h
    rw [List.mapM_cons, h.1, ih h.2]
    rfl

/-- A computation of which something is made that is not a failure succeeds. -/
theorem exists_of_map_eq_ok {ε α β : Type} {x : Except ε α} {f : α → β} {b : β}
    (h : x.map f = .ok b) : ∃ a, x = .ok a ∧ f a = b := by
  cases x with
  | error e => cases h
  | ok a => exact ⟨a, rfl, Except.ok.inj h⟩

end DisplayList
