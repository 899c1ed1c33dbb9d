import DisplayList.Wavefront.Obj

/-!
# OBJ text read back

A reader of OBJ text that knows nothing of scenes: lines end in line feeds, words have single
spaces between them, and the first word of a line says what the line is. Vertices and texture
coordinates are numbered by counting the lines of either kind from 1 on, through the whole text.
What is read from lines that were written is what was written, since numbers and keywords have
no spaces in them and no name has a line feed.
-/
namespace DisplayList

/-! ### Numerals -/

/-- A character that numbers are written with. -/
def isNumeral (c : Char) : Bool :=
  c.isAlphanum || c == '-' || c == '.'

theorem isNumeral_of_mem_toDigits {n : Nat} {c : Char} (h : c ∈ Nat.toDigits 10 n) :
    isNumeral c := by
  have hdigit := Nat.isDigit_of_mem_toDigits (by decide) (by decide) h
  simp [isNumeral, Char.isAlphanum, hdigit]

/-- A word of such characters, with one of them at least. -/
def IsNumber (word : List Char) : Prop :=
  word ≠ [] ∧ ∀ c ∈ word, isNumeral c

theorem IsNumber.not_mem {word : List Char} (h : IsNumber word) {c : Char} (hc : ¬ isNumeral c) :
    c ∉ word :=
  fun hmem => hc (h.2 c hmem)

theorem isNumber_toDigits (n : Nat) : IsNumber (Nat.toDigits 10 n) :=
  ⟨Nat.toDigits_ne_nil, fun _ => isNumeral_of_mem_toDigits⟩

theorem isNumber_positional (d : Decimal) : IsNumber d.positional := by
  have hdigits : ∀ c ∈ Nat.toDigits 10 d.digits, isNumeral c := fun _ => isNumeral_of_mem_toDigits
  have hzeros (n : Nat) : ∀ c ∈ List.replicate n '0', isNumeral c := by
    intro c hc
    rw [List.eq_of_mem_replicate hc]
    rfl
  unfold Decimal.positional
  dsimp only
  split
  · split
    · exact ⟨List.cons_ne_nil _ _, hzeros 1⟩
    · exact ⟨by simp, List.forall_mem_append.mpr ⟨hdigits, hzeros _⟩⟩
  · split
    · have hbefore (k : Nat) : ∀ c ∈ (Nat.toDigits 10 d.digits).take k, isNumeral c :=
        fun c hc => hdigits c (List.mem_of_mem_take hc)
      have hbehind (k : Nat) : ∀ c ∈ (Nat.toDigits 10 d.digits).drop k, isNumeral c :=
        fun c hc => hdigits c (List.mem_of_mem_drop hc)
      exact ⟨by simp, List.forall_mem_append.mpr
        ⟨hbefore _, List.forall_mem_cons.mpr ⟨rfl, hbehind _⟩⟩⟩
    · exact ⟨List.cons_ne_nil _ _, List.forall_mem_cons.mpr ⟨rfl, List.forall_mem_cons.mpr
        ⟨rfl, List.forall_mem_append.mpr ⟨hzeros _, hdigits⟩⟩⟩⟩

/-- A sign in front of a number makes a number. -/
theorem IsNumber.signed {word : List Char} (h : IsNumber word) (negative : Bool) :
    IsNumber (SingleShape.sign negative ++ word) := by
  cases negative with
  | false => exact h
  | true => exact ⟨List.cons_ne_nil _ _, List.forall_mem_cons.mpr ⟨rfl, h.2⟩⟩

theorem isNumber_floatText (x : Float32) : IsNumber (floatText x).toList := by
  have hzero : IsNumber ['0'] := ⟨by simp, List.all_eq_true.mp rfl⟩
  have hnan : IsNumber ['N', 'a', 'N'] := ⟨by simp, List.all_eq_true.mp rfl⟩
  have hinf : IsNumber ['i', 'n', 'f'] := ⟨by simp, List.all_eq_true.mp rfl⟩
  rw [floatText, String.toList_ofList]
  unfold SingleShape.text
  split
  · exact hnan
  · exact hinf.signed _
  · exact hzero.signed _
  · rename_i negative interval _
    refine IsNumber.signed ?_ negative
    cases interval.shortest? with
    | none => exact hzero
    | some d => exact isNumber_positional d

namespace Wavefront

/-! ### The reader -/

/-- The lines of a text, without the line feeds that end them. -/
def textLines (text : String) : List (List Char) :=
  (text.toList.splitOn '\n').dropLast

/-- The words of a line. -/
def words (line : List Char) : List (List Char) :=
  line.splitOn ' '

/-- What a line with a keyword says: its place among all lines, and the words after the keyword. -/
structure Statement where
  line : Nat
  arguments : List (List Char)
  deriving DecidableEq

/-- The statements with a keyword, in order. -/
def statements (keyword text : String) : List Statement :=
  (textLines text).zipIdx.filterMap fun (line, n) =>
    match words line with
    | [] => none
    | word :: arguments => if word = keyword.toList then some ⟨n, arguments⟩ else none

/-- The statement with a keyword that has the number `n`, counted from 1 on. -/
def numbered? (keyword text : String) : Nat → Option Statement
  | 0 => none
  | n + 1 => (statements keyword text)[n]?

theorem numbered?_succ (keyword text : String) (n : Nat) :
    numbered? keyword text (n + 1) = (statements keyword text)[n]? := rfl

/-- Numbers as words. -/
def floatWords (xs : List Float32) : List (List Char) :=
  xs.map fun x => (floatText x).toList

/-- The number that decimal digits stand for. -/
def number? (digits : List Char) : Option Nat :=
  if digits ≠ [] ∧ digits.all Char.isDigit then some (Nat.ofDigitChars 10 digits 0) else none

/-- The numbers of a vertex and of texture coordinates, with a slash between them. -/
def corner? (word : List Char) : Option (Nat × Nat) :=
  match word.splitOn '/' with
  | [vertex, texCoord] => do return (← number? vertex, ← number? texCoord)
  | _ => none

theorem number?_toDigits (n : Nat) : number? (Nat.toDigits 10 n) = some n := by
  have hdigits : (Nat.toDigits 10 n).all Char.isDigit := by
    rw [List.all_eq_true]
    exact fun _ => Nat.isDigit_of_mem_toDigits (by decide) (by decide)
  rw [number?, if_pos ⟨Nat.toDigits_ne_nil, hdigits⟩, Nat.ofDigitChars_ten_toDigits]

/-! ### Written lines -/

namespace ObjLine

/-- The word that a line starts with. -/
def keyword : ObjLine → String
  | counts .. => "#"
  | library _ => "mtllib"
  | object _ => "o"
  | useMaterial _ => "usemtl"
  | vertex .. => "v"
  | texCoord _ => "vt"
  | face _ => "f"

/-- What a line says after its keyword. -/
def body : ObjLine → String
  | counts meshes faces => s!"Meshes: {meshes}, Faces: {faces}"
  | library name => name
  | object index => "mesh_" ++ Numeral.decimal 4 index
  | useMaterial name => name
  | vertex p c => floats [p.x, p.y, p.z, fraction c.red, fraction c.green, fraction c.blue]
  | texCoord uv => floats [uv.u, uv.v]
  | face t => s!"{t.a}/{t.a} {t.b}/{t.b} {t.c}/{t.c}"

theorem toList_text (l : ObjLine) : l.text.toList = l.keyword.toList ++ ' ' :: l.body.toList := by
  unfold text
  cases l <;> simp [keyword, body, toString]

/-- The words after the keyword. -/
def arguments (l : ObjLine) : List (List Char) :=
  words l.body.toList

theorem words_text (l : ObjLine) : words l.text.toList = l.keyword.toList :: l.arguments := by
  have hspace : ' ' ∉ l.keyword.toList := by cases l <;> simp [keyword]
  rw [toList_text, words, List.splitOn_append_cons_self_of_not_mem hspace, arguments, words]

/-- A corner as it is written. -/
def cornerWord (n : Nat) : List Char :=
  Nat.toDigits 10 n ++ '/' :: Nat.toDigits 10 n

theorem not_mem_cornerWord {c : Char} (hc : ¬ isNumeral c) (hslash : c ≠ '/') (n : Nat) :
    c ∉ cornerWord n := by
  have hdigits := (isNumber_toDigits n).not_mem hc
  simp [cornerWord, hdigits, hslash]

theorem corner?_cornerWord (n : Nat) : corner? (cornerWord n) = some (n, n) := by
  have hslash : '/' ∉ Nat.toDigits 10 n := (isNumber_toDigits n).not_mem (by decide)
  simp [corner?, cornerWord, List.splitOn_append_cons_self_of_not_mem hslash,
    List.splitOn_eq_singleton hslash, number?_toDigits]

theorem arguments_face (t : Triangle Nat) : (face t).arguments = t.toList.map cornerWord := by
  have hspace (n : Nat) : ' ' ∉ cornerWord n := not_mem_cornerWord (by decide) (by decide) n
  have hbody : (face t).body.toList =
      cornerWord t.a ++ ' ' :: (cornerWord t.b ++ ' ' :: cornerWord t.c) := by
    simp [body, cornerWord, toString]
  rw [arguments, words, hbody, List.splitOn_append_cons_self_of_not_mem (hspace _),
    List.splitOn_append_cons_self_of_not_mem (hspace _), List.splitOn_eq_singleton (hspace _)]
  rfl

theorem words_floats {xs : List Float32} (hxs : xs ≠ []) :
    words (floats xs).toList = floatWords xs := by
  rw [words, floats, floatWords, String.toList_intercalate, List.map_map]
  refine List.splitOn_intercalate ' ' (fun word hword => ?_) (by simpa using hxs)
  obtain ⟨x, -, rfl⟩ := List.mem_map.mp hword
  exact (isNumber_floatText x).not_mem (by decide)

theorem arguments_vertex (p : Position) (c : Colour) : (vertex p c).arguments =
    floatWords [p.x, p.y, p.z, c.red / 255, c.green / 255, c.blue / 255] :=
  words_floats (List.cons_ne_nil _ _)

theorem arguments_texCoord (uv : TexCoord) : (texCoord uv).arguments = floatWords [uv.u, uv.v] :=
  words_floats (List.cons_ne_nil _ _)

/-- A line has no line feed in it. -/
def OneLine (l : ObjLine) : Prop :=
  '\n' ∉ l.body.toList

theorem OneLine.not_mem_text {l : ObjLine} (h : l.OneLine) : '\n' ∉ l.text.toList := by
  have hkeyword : '\n' ∉ l.keyword.toList := by cases l <;> simp [keyword]
  have hbody : '\n' ∉ l.body.toList := h
  simp [toList_text, hkeyword, hbody]

theorem oneLine_counts (meshes faces : Nat) : (counts meshes faces).OneLine := by
  have hdigits (n : Nat) : '\n' ∉ Nat.toDigits 10 n := (isNumber_toDigits n).not_mem (by decide)
  simp [OneLine, body, toString, hdigits]

theorem oneLine_object (index : Nat) : (object index).OneLine := by
  have hdigits : '\n' ∉ Nat.toDigits 10 index := (isNumber_toDigits index).not_mem (by decide)
  simp [OneLine, body, Numeral.decimal, Numeral.zeroFilled, hdigits]

theorem oneLine_face (t : Triangle Nat) : (face t).OneLine := by
  have hdigits (n : Nat) : '\n' ∉ Nat.toDigits 10 n := (isNumber_toDigits n).not_mem (by decide)
  simp [OneLine, body, toString, hdigits]

theorem not_mem_floats (xs : List Float32) : '\n' ∉ (floats xs).toList := by
  rw [floats, String.toList_intercalate, List.map_map]
  induction xs with
  | nil => simp
  | cons x xs ih =>
    have hx : '\n' ∉ (floatText x).toList := (isNumber_floatText x).not_mem (by decide)
    cases xs with
    | nil => simpa using hx
    | cons y ys => simpa [hx] using ih

theorem oneLine_vertex (p : Position) (c : Colour) : (vertex p c).OneLine :=
  not_mem_floats _

theorem oneLine_texCoord (uv : TexCoord) : (texCoord uv).OneLine :=
  not_mem_floats _

end ObjLine

/-! ### Lines read back -/

theorem textLines_joinLines {lines : List String} (h : ∀ line ∈ lines, '\n' ∉ line.toList) :
    textLines (joinLines lines) = lines.map String.toList := by
  induction lines with
  | nil => rfl
  | cons line lines ih =>
    have hrest := ih fun other hother => h other (List.mem_cons_of_mem _ hother)
    have htext : (joinLines (line :: lines)).toList =
        line.toList ++ '\n' :: (joinLines lines).toList := by simp
    rw [textLines, htext, List.splitOn_append_cons_self_of_not_mem (h line List.mem_cons_self),
      List.dropLast_cons_of_ne_nil (List.splitOn_ne_nil _ _), List.map_cons, ← hrest, textLines]

variable {ls before after : List ObjLine} {l : ObjLine}

/-- The lines with a keyword, as statements, if the first line is at the place `start`. -/
def statementsOf (key : String) (start : Nat) (ls : List ObjLine) : List Statement :=
  (ls.zipIdx start).filterMap fun (l, n) => if l.keyword = key then some ⟨n, l.arguments⟩ else none

theorem statements_joinLines (h : ∀ l ∈ ls, l.OneLine) (key : String) :
    statements key (joinLines (ls.map ObjLine.text)) = statementsOf key 0 ls := by
  have hlines : ∀ line ∈ ls.map ObjLine.text, '\n' ∉ line.toList := by
    intro line hline
    obtain ⟨l, hl, rfl⟩ := List.mem_map.mp hline
    exact (h l hl).not_mem_text
  rw [statements, textLines_joinLines hlines, List.map_map, List.zipIdx_map, List.filterMap_map]
  congr 1
  funext ⟨l, n⟩
  simp [ObjLine.words_text, String.toList_inj]

/-- How many lines have a keyword. -/
def keyCount (key : String) (ls : List ObjLine) : Nat :=
  ls.countP fun l => l.keyword = key

@[simp] theorem keyCount_append (key : String) (ls more : List ObjLine) :
    keyCount key (ls ++ more) = keyCount key ls + keyCount key more :=
  List.countP_append

theorem length_statementsOf (key : String) (start : Nat) (ls : List ObjLine) :
    (statementsOf key start ls).length = keyCount key ls := by
  induction ls generalizing start with
  | nil => rfl
  | cons l ls ih =>
    have hrest := ih (start + 1)
    by_cases hl : l.keyword = key
    · simpa [statementsOf, keyCount, hl] using hrest
    · simpa [statementsOf, keyCount, hl] using hrest

/-- A line stands, among those with its keyword, behind as many as there are before it. -/
theorem getElem?_statementsOf (hls : ls = before ++ l :: after) :
    (statementsOf l.keyword 0 ls)[keyCount l.keyword before]? =
      some ⟨before.length, l.arguments⟩ := by
  have hsplit : statementsOf l.keyword 0 ls = statementsOf l.keyword 0 before ++
      ⟨before.length, l.arguments⟩ :: statementsOf l.keyword (before.length + 1) after := by
    simp [hls, statementsOf, List.zipIdx_append]
  rw [hsplit, List.getElem?_append_right (Nat.le_of_eq (length_statementsOf _ _ _)),
    length_statementsOf, Nat.sub_self, List.getElem?_cons_zero]

end Wavefront

end DisplayList
