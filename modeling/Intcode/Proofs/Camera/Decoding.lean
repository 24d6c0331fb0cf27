import Intcode.Camera
import Intcode.Proofs.Text.Blank

/-!
# Reading what a camera prints

What a camera prints is cut at the line breaks. What stands between two of them makes one row of the
picture, or none if there is no character in it, whatever stands elsewhere. A picture that is typed
in again is read as the same picture.
-/

namespace Intcode.Camera

def isCode (w : Word) : Bool := 0 ≤ w.toInt ∧ w.toInt < 128

def character (w : Word) : Char := Char.ofNat w.toInt.toNat

theorem char?_eq (w : Word) : char? w = if isCode w then some (character w) else none := by
  rw [char?]
  cases number : w.toNat? with
  | none =>
    have negative := Word.toNat?_eq_none_iff.mp number
    have outside : isCode w = false := by
      rw [isCode, decide_eq_false_iff_not]
      omega
    rw [outside]
    rfl
  | some n =>
    have value := Word.toNat?_eq_some_iff.mp number
    have same : isCode w = decide (n < 128) := by
      rw [isCode, decide_eq_decide, value]
      omega
    rw [same, character, value]
    simp

theorem toNat_character {w : Word} (code : isCode w = true) :
    (character w).toNat = w.toInt.toNat := by
  obtain ⟨low, high⟩ := of_decide_eq_true code
  have valid : w.toInt.toNat.isValidChar := Or.inl (by omega)
  rw [character, Char.ofNat, dif_pos valid]
  rfl

/-- A character that is read has the code of its word. -/
theorem char?_eq_some_iff {w : Word} {c : Char} :
    char? w = some c ↔ w.toInt = c.toNat ∧ c.toNat < 128 := by
  rw [char?_eq]
  constructor
  · intro read
    split at read
    · rename_i code
      cases read
      obtain ⟨low, high⟩ := of_decide_eq_true code
      rw [toNat_character code]
      omega
    · cases read
  · rintro ⟨value, ascii⟩
    have code : isCode w = true := by
      rw [isCode, decide_eq_true_iff]
      omega
    rw [if_pos code, character, value, Int.toNat_natCast, Char.ofNat_toNat]

theorem isNone_char? (w : Word) : (char? w).isNone = !isCode w := by
  rw [char?_eq]
  cases isCode w <;> rfl

theorem filterMap_char? (o : List Word) : o.filterMap char? = (o.filter isCode).map character := by
  induction o with
  | nil => rfl
  | cons w o ih =>
    rw [List.filterMap_cons, char?_eq, ih, List.filter_cons]
    split <;> rename_i read <;> split at read <;> simp_all

def code (c : Char) : Word := Int64.ofNat c.toNat

section Ascii

variable {c : Char} {line : List Char}

theorem map_utf8EncodeChar (ascii : c.toNat < 128) :
    (String.utf8EncodeChar c).map (fun b => Int64.ofNat b.toNat) = [code c] := by
  have one : c.utf8Size = 1 := by
    rw [Char.utf8Size_eq_one_iff, UInt32.le_iff_toNat_le]
    exact Nat.le_of_lt_succ ascii
  have byte : c.val.toNat % 2 ^ 8 = c.toNat :=
    Nat.mod_eq_of_lt (Nat.lt_trans ascii (by decide))
  rw [String.utf8EncodeChar_eq_singleton one, List.map_singleton, UInt32.toNat_toUInt8, byte, code]

theorem char?_code (ascii : c.toNat < 128) : char? (code c) = some c :=
  char?_eq_some_iff.mpr ⟨Int64.toInt_ofNat_of_lt (Nat.lt_trans ascii (by decide)), ascii⟩

/-- A line of ASCII characters is typed in by their codes. -/
theorem encodeLine_eq (ascii : ∀ c ∈ line, c.toNat < 128) :
    encodeLine line = (line ++ ['\n']).map code := by
  induction line with
  | nil => rfl
  | cons c line ih =>
    rw [List.forall_mem_cons] at ascii
    have rest := ih ascii.2
    rw [encodeLine] at rest ⊢
    rw [List.flatMap_cons, map_utf8EncodeChar ascii.1, List.append_assoc, rest]
    rfl

theorem map_char?_encodeLine (ascii : ∀ c ∈ line, c.toNat < 128) :
    (encodeLine line).map char? = (line ++ ['\n']).map some := by
  rw [encodeLine_eq ascii, List.map_map]
  refine List.map_congr_left fun c mem => char?_code ?_
  rcases List.mem_append.mp mem with inside | last
  · exact ascii c inside
  · obtain rfl := List.mem_singleton.mp last
    decide

theorem filterMap_char?_encodeLine (ascii : ∀ c ∈ line, c.toNat < 128) :
    (encodeLine line).filterMap char? = line ++ ['\n'] := by
  have read : ((encodeLine line).map char?).filterMap id = line ++ ['\n'] := by
    rw [map_char?_encodeLine ascii, List.filterMap_map]
    exact List.filterMap_some
  rwa [List.filterMap_map] at read

theorem isCode_of_mem_encodeLine (ascii : ∀ c ∈ line, c.toNat < 128) {w : Word}
    (mem : w ∈ encodeLine line) : isCode w = true := by
  have read : char? w ∈ (line ++ ['\n']).map some :=
    map_char?_encodeLine ascii ▸ List.mem_map_of_mem mem
  obtain ⟨c, -, same⟩ := List.mem_map.mp read
  have known := isNone_char? w
  rw [← same] at known
  simpa using known.symm

end Ascii

/-- The rows of a text. Empty ones do not count. -/
def rowsOf (text : List Char) : List (List Char) :=
  (Text.pieces (· == '\n') text).filter (!·.isEmpty)

/-- All that is known of rows follows from this and from what a text without line breaks is. -/
theorem rowsOf_append_break (a b : List Char) : rowsOf (a ++ '\n' :: b) = rowsOf a ++ rowsOf b := by
  rw [rowsOf, Text.pieces_append_cut a b (by decide), List.filter_append]
  rfl

theorem rowsOf_of_clear {row : List Char} (clear : '\n' ∉ row) :
    rowsOf row = [row].filter (!·.isEmpty) := by
  rw [rowsOf, Text.pieces_eq_splitOnP, List.splitOnP_eq_singleton]
  rintro c mem
  exact beq_eq_false_iff_ne.mpr fun same => clear (same ▸ mem)

theorem rowsOf_nil : rowsOf [] = [] := rowsOf_of_clear List.not_mem_nil

theorem of_mem_rowsOf {text row : List Char} (mem : row ∈ rowsOf text) :
    row ≠ [] ∧ ∀ c ∈ row, c ∈ text ∧ c ≠ '\n' := by
  obtain ⟨piece, some⟩ := List.mem_filter.mp mem
  refine ⟨by simpa using some, fun c inside => ?_⟩
  obtain ⟨there, whole⟩ := Text.of_mem_pieces piece c inside
  exact ⟨there, beq_eq_false_iff_ne.mp whole⟩

/-- Rows that are written below each other are told apart. -/
theorem rowsOf_intercalate {rows : List (List Char)}
    (proper : ∀ row ∈ rows, row ≠ [] ∧ '\n' ∉ row) : rowsOf (['\n'].intercalate rows) = rows := by
  have whole : rows.filter (!·.isEmpty) = rows :=
    List.filter_eq_self.mpr fun row mem => by simp [(proper row mem).1]
  by_cases some : rows = []
  · rw [some]
    exact rowsOf_nil
  · rw [rowsOf, Text.pieces_intercalate (fun row mem => (proper row mem).2) some, whole]

namespace View

def lastReport (o : List Word) : Option Word := (o.filter (!isCode ·)).getLast?

theorem ofOutput_eq (o : List Word) :
    ofOutput o = { rows := rowsOf (o.filterMap char?), report := lastReport o } := by
  simp only [ofOutput, isNone_char?]
  rfl

theorem lastReport_append (a b : List Word) :
    lastReport (a ++ b) = (lastReport b).or (lastReport a) := by
  rw [lastReport, List.filter_append, List.getLast?_append]
  rfl

/-- The rows before and after a line break are those of the parts of the output. -/
theorem ofOutput_append_break (a b : List Word) : ofOutput (a ++ [10] ++ b) =
    { rows := (ofOutput a).rows ++ (ofOutput b).rows
      report := (ofOutput b).report.or (ofOutput a).report } := by
  have break10 : char? 10 = some '\n' := by decide
  have skipped : lastReport (10 :: b) = lastReport b := by
    have none : lastReport [10] = none := by decide
    rw [← List.singleton_append, lastReport_append, none, Option.or_none]
  simp only [ofOutput_eq, lastReport_append, List.append_assoc, List.filterMap_append,
    List.singleton_append, List.filterMap_cons_some break10, rowsOf_append_break, skipped]

/-- What is printed without a line break is one row at most. -/
theorem ofOutput_of_unbroken {o : List Word} (unbroken : 10 ∉ o) : ofOutput o =
    { rows := [(o.filter isCode).map character].filter (!·.isEmpty), report := lastReport o } := by
  have clear : '\n' ∉ o.filterMap char? := by
    intro mem
    obtain ⟨w, there, read⟩ := List.mem_filterMap.mp mem
    have code : w = 10 := Int64.toInt_inj.mp (char?_eq_some_iff.mp read).1
    exact unbroken (code ▸ there)
  rw [ofOutput_eq, rowsOf_of_clear clear, filterMap_char?]

theorem proper_rows {o : List Word} {row : List Char} (mem : row ∈ (ofOutput o).rows) :
    row ≠ [] ∧ ∀ c ∈ row, c ≠ '\n' ∧ c.toNat < 128 := by
  rw [ofOutput_eq] at mem
  obtain ⟨some, inside⟩ := of_mem_rowsOf mem
  refine ⟨some, fun c there => ⟨(inside c there).2, ?_⟩⟩
  obtain ⟨w, -, read⟩ := List.mem_filterMap.mp (inside c there).1
  exact (char?_eq_some_iff.mp read).2

theorem toList_picture (v : View) : v.picture.toList = ['\n'].intercalate v.rows := by
  have same : v.rows.map (String.toList ∘ String.ofList) = v.rows := by simp
  rw [picture, String.toList_intercalate, List.map_map, same]
  rfl

/-- A picture that is typed in again is read as the same rows, and nothing else is read. -/
theorem ofOutput_encodeLine {v : View}
    (proper : ∀ row ∈ v.rows, row ≠ [] ∧ ∀ c ∈ row, c ≠ '\n' ∧ c.toNat < 128) :
    ofOutput (encodeLine v.picture.toList) = { rows := v.rows, report := none } := by
  have ascii : ∀ c ∈ v.picture.toList, c.toNat < 128 := by
    intro c mem
    rw [toList_picture] at mem
    rcases Text.mem_of_mem_intercalate mem with separator | ⟨row, there, inside⟩
    · obtain rfl := List.mem_singleton.mp separator
      decide
    · exact ((proper row there).2 c inside).2
  have none : lastReport (encodeLine v.picture.toList) = none := by
    have all : (encodeLine v.picture.toList).filter (!isCode ·) = [] :=
      List.filter_eq_nil_iff.mpr fun w mem => by simp [isCode_of_mem_encodeLine ascii mem]
    rw [lastReport, all]
    rfl
  have clear : ∀ row ∈ v.rows, row ≠ [] ∧ '\n' ∉ row := fun row mem =>
    ⟨(proper row mem).1, fun inside => ((proper row mem).2 '\n' inside).1 rfl⟩
  rw [ofOutput_eq, filterMap_char?_encodeLine ascii, none, rowsOf_append_break, rowsOf_nil,
    List.append_nil, toList_picture, rowsOf_intercalate clear]

end View

/-- Reading undoes printing, and it reads each part between two line breaks by itself. A picture
that is typed in again has the same rows and no report. A row is not empty and holds ASCII
characters other than line breaks. What is read on both sides of a line break is what is read of the
two sides, with the later of the two reports. Where no line break is printed, the characters make
one row, if there are any, and the last word that is no character is the report. -/
theorem reading_undoes_printing :
    (∀ o, View.ofOutput (encodeLine (View.ofOutput o).picture.toList) =
      { rows := (View.ofOutput o).rows, report := none }) ∧
    (∀ o, ∀ row ∈ (View.ofOutput o).rows, row ≠ [] ∧ ∀ c ∈ row, c ≠ '\n' ∧ c.toNat < 128) ∧
    (∀ a b, View.ofOutput (a ++ [10] ++ b) =
      { rows := (View.ofOutput a).rows ++ (View.ofOutput b).rows
        report := (View.ofOutput b).report.or (View.ofOutput a).report }) ∧
    (∀ o, 10 ∉ o → View.ofOutput o =
      { rows := [(o.filter isCode).map character].filter (!·.isEmpty)
        report := (o.filter (!isCode ·)).getLast? }) :=
  ⟨fun _ => View.ofOutput_encodeLine fun _ => View.proper_rows, fun _ _ => View.proper_rows,
    View.ofOutput_append_break, fun _ => View.ofOutput_of_unbroken⟩

/-- Output with two reports, one of them inside a row, an empty row, a control character and a last
row that is not ended. -/
def glimpse : List Word := [35, 300, 46, 10, 10, 7, 35, -5]

theorem glimpse_is_read_back :
    10 ∉ glimpse.take 3 ∧
      View.ofOutput (glimpse.take 3) = { rows := [['#', '.']], report := some 300 } ∧
      (View.ofOutput glimpse).rows = ['#', '.'] :: (View.ofOutput (glimpse.drop 4)).rows ∧
      (View.ofOutput glimpse).report = some (-5) ∧
      (['\x07', '#'] ∈ (View.ofOutput glimpse).rows ∧ '\x07' ≠ '\n') ∧
      View.ofOutput (encodeLine (View.ofOutput glimpse).picture.toList) =
        { rows := (View.ofOutput glimpse).rows, report := none } := by
  obtain ⟨back, proper, split, whole⟩ := reading_undoes_printing
  have unbroken : 10 ∉ glimpse.take 3 := by decide
  have first : View.ofOutput (glimpse.take 3) = { rows := [['#', '.']], report := some 300 } :=
    (whole _ unbroken).trans (by decide)
  have parts := split (glimpse.take 3) (glimpse.drop 4)
  have second : ['\x07', '#'] ∈ (View.ofOutput glimpse).rows := by decide
  refine ⟨unbroken, first, ?_, ?_, ⟨second, ((proper _ _ second).2 '\x07' (by decide)).1⟩, back _⟩
  · exact (congrArg View.rows parts).trans (by rw [first]; rfl)
  · exact (congrArg View.report parts).trans (by decide)

end Intcode.Camera
