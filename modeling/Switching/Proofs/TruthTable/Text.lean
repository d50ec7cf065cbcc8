import Mathlib.Data.List.Forall2
import Switching.Proofs.Patterns
import Switching.TruthTable.Basic

/-!
# Tables in columns

A line of a table is made of blocks with separators between them. All blocks but the last are as wide
as their columns, so the separators stand one below the other.

* `drop_intercalate`: a block stands behind all those before it and their separators.
* `TruthTable.columnStart`, `TruthTable.columnStop`: where a column begins and ends.
* `TruthTable.Shows`: what stands in the columns of a line. `TruthTable.Fits.shows`: cells that fit
  into their columns are shown by their blocks.
* **`TruthTable.splitOn_text`**: the lines of a table, and what they show.
-/

namespace Switching

/-! ## Blocks -/

section Blocks

variable {α : Type} {separator : List α} {blocks : List (List α)}

theorem drop_intercalate (separator : List α) {blocks : List (List α)} {j : Nat}
    (hj : j < blocks.length) :
    (separator.intercalate blocks).drop (((blocks.take j).map List.length).sum + separator.length * j) =
      separator.intercalate (blocks.drop j) := by
  induction blocks generalizing j with
  | nil => cases hj
  | cons b blocks ih =>
    cases j with
    | zero => simp
    | succ j =>
      cases blocks with
      | nil => simp at hj
      | cons b' blocks =>
        have hlength : (((b :: b' :: blocks).take (j + 1)).map List.length).sum +
            separator.length * (j + 1) = (b ++ separator).length +
              ((((b' :: blocks).take j).map List.length).sum + separator.length * j) := by
          simp [Nat.mul_succ]
          omega
        rw [List.intercalate_cons_cons, hlength, List.drop_length_add_append,
          ih (Nat.lt_of_succ_lt_succ hj), List.drop_succ_cons]

theorem notMem_intercalate {x : α} (hseparator : x ∉ separator) (hblocks : ∀ b ∈ blocks, x ∉ b) :
    x ∉ separator.intercalate blocks := by
  induction blocks with
  | nil => simp
  | cons b blocks ih =>
    obtain ⟨hb, hblocks⟩ := List.forall_mem_cons.1 hblocks
    cases blocks with
    | nil => simpa using hb
    | cons b' blocks => simp [hb, hseparator, ih hblocks]

end Blocks

namespace TruthTable

variable {t : TruthTable} {separator output : List Char} {cells : List (List Char)} {j : Nat}

/-! ## Columns -/

/-- Where the column with the number `j` begins: behind the columns before it, each with its
separator. -/
def columnStart (t : TruthTable) (j : Nat) : Nat := (t.widths.take j).sum + 3 * j

/-- Where this column ends, and its separator begins. -/
def columnStop (t : TruthTable) (j : Nat) : Nat := (t.widths.take (j + 1)).sum + 3 * j

/-- The line has the cells in the columns of the inputs, with blanks behind them, and `output` in the
last column. Between two columns there is the separator. -/
structure Shows (t : TruthTable) (separator : List Char) (cells : List (List Char))
    (output : List Char) (line : List Char) : Prop where
  length_cells : cells.length = t.width
  cell : ∀ j c, cells[j]? = some c → line.extract (t.columnStart j) (t.columnStop j) =
    c ++ List.replicate (t.columnStop j - t.columnStart j - c.length) ' '
  separator : ∀ j < t.width, line.extract (t.columnStop j) (t.columnStart (j + 1)) = separator
  output : line.drop (t.columnStart t.width) = output

/-- The widths of the columns of the inputs. -/
def inputWidths (t : TruthTable) : List Nat := t.inputs.map fun h => max h.length 1

theorem widths_eq (t : TruthTable) : t.widths = t.inputWidths ++ [max t.label.length 1] := by
  simp [widths, headers, inputWidths]

@[simp] theorem length_inputWidths (t : TruthTable) : t.inputWidths.length = t.width :=
  List.length_map _

theorem columnStart_succ : t.columnStart (j + 1) = t.columnStop j + 3 := by
  simp only [columnStart, columnStop]
  omega

theorem columnStop_eq {w : Nat} (hw : t.inputWidths[j]? = some w) :
    t.columnStop j = t.columnStart j + w := by
  have hj : j < t.inputWidths.length := (List.getElem?_eq_some_iff.1 hw).1
  rw [columnStop, columnStart, List.take_add_one, widths_eq, List.getElem?_append_left hj, hw]
  simp
  omega

/-! ## Lines -/

/-- A cell filled up with blanks. -/
def fill (width : Nat) (cell : List Char) : List Char :=
  cell ++ List.replicate (width - cell.length) ' '

/-- The blocks of a line. The last one is not filled up. -/
def blocks (t : TruthTable) (cells : List (List Char)) (output : List Char) : List (List Char) :=
  List.zipWith fill t.inputWidths cells ++ [output]

/-- The cells fit into the columns of the inputs. -/
def Fits (t : TruthTable) (cells : List (List Char)) : Prop :=
  List.Forall₂ (fun c w => c.length ≤ w) cells t.inputWidths

theorem map_length_zipWith_fill {widths : List Nat}
    (h : List.Forall₂ (fun c w => c.length ≤ w) cells widths) :
    (List.zipWith fill widths cells).map List.length = widths := by
  induction h with
  | nil => rfl
  | cons hc _ ih => simp [fill, ih, hc]

/-- Behind the columns before it a line has the block of a column, and those after it. -/
theorem Fits.drop_columnStart (h : t.Fits cells) (hseparator : separator.length = 3)
    (hj : j ≤ t.width) : (separator.intercalate (t.blocks cells output)).drop (t.columnStart j) =
      separator.intercalate ((t.blocks cells output).drop j) := by
  have hwidths : (List.zipWith fill t.inputWidths cells).map List.length = t.inputWidths :=
    map_length_zipWith_fill h
  have hlength : (List.zipWith fill t.inputWidths cells).length = t.width := by
    rw [← List.length_map (f := List.length), hwidths, length_inputWidths]
  have hblocks : j < (t.blocks cells output).length := by
    rw [blocks, List.length_append, hlength]
    exact Nat.lt_succ_of_le hj
  have htake : ((t.blocks cells output).take j).map List.length = t.widths.take j := by
    rw [blocks, List.take_append_of_le_length (hlength ▸ hj), List.map_take, hwidths, widths_eq,
      List.take_append_of_le_length (length_inputWidths t ▸ hj)]
  rw [← drop_intercalate separator hblocks, htake, hseparator, columnStart]

/-- In the column of an input a line has its cell, filled up, and behind it a separator. -/
theorem Fits.column (h : t.Fits cells) (hseparator : separator.length = 3) {c : List Char}
    (hc : cells[j]? = some c) (output : List Char) :
    ∃ w, t.columnStop j = t.columnStart j + w ∧ c.length ≤ w ∧
      (separator.intercalate (t.blocks cells output)).drop (t.columnStart j) = fill w c ++
        (separator ++ (separator.intercalate (t.blocks cells output)).drop (t.columnStart (j + 1))) := by
  obtain ⟨hj, rfl⟩ := List.getElem?_eq_some_iff.1 hc
  have hwidth : j < t.inputWidths.length := h.length_eq ▸ hj
  have hle : cells[j].length ≤ t.inputWidths[j] := h.get hj hwidth
  have hblock : (t.blocks cells output)[j]? = some (fill t.inputWidths[j] cells[j]) := by
    rw [blocks, List.getElem?_append_left (by simpa [hj] using hwidth), List.getElem?_zipWith,
      List.getElem?_eq_getElem hwidth, hc]
  have hlater : j + 1 < (t.blocks cells output).length := by
    simp only [blocks, List.length_append, List.length_zipWith, List.length_singleton]
    omega
  obtain ⟨hlt, hblock⟩ := List.getElem?_eq_some_iff.1 hblock
  refine ⟨t.inputWidths[j], columnStop_eq (List.getElem?_eq_getElem hwidth), hle, ?_⟩
  rw [length_inputWidths] at hwidth
  rw [h.drop_columnStart hseparator hwidth.le, h.drop_columnStart hseparator hwidth,
    List.drop_eq_getElem_cons hlt, hblock, List.drop_eq_getElem_cons hlater,
    List.intercalate_cons_cons, List.append_assoc]

/-- **Cells that fit are shown** by their blocks. -/
theorem Fits.shows (h : t.Fits cells) (hseparator : separator.length = 3) (output : List Char) :
    t.Shows separator cells output (separator.intercalate (t.blocks cells output)) where
  length_cells := h.length_eq.trans (length_inputWidths t)
  cell j c hc := by
    obtain ⟨w, hstop, hle, hline⟩ := h.column hseparator hc output
    have hlength : (fill w c).length = w := by simp [fill, hle]
    rw [List.extract, hline, hstop, Nat.add_sub_cancel_left, List.take_left' hlength, fill]
  separator j hj := by
    have hcells : j < cells.length := by rwa [h.length_eq, length_inputWidths]
    obtain ⟨w, hstop, hle, hline⟩ :=
      h.column hseparator (List.getElem?_eq_getElem hcells) output
    have hlength : (fill w cells[j]).length = w := by simp [fill, hle]
    rw [List.extract, columnStart_succ, Nat.add_sub_cancel_left, hstop, ← List.drop_drop, hline,
      List.drop_left' hlength, List.take_left' hseparator]
  output := by
    have hlength : (List.zipWith fill t.inputWidths cells).length = t.width := by simp [h.length_eq]
    rw [h.drop_columnStart hseparator le_rfl, blocks, List.drop_left' hlength,
      List.intercalate_singleton]

/-! ## Tables -/

@[simp] theorem toList_pad (width : Nat) (cell : String) :
    (pad width cell).toList = fill width cell.toList := by
  rw [pad, String.toList_append, String.toList_ofList, fill, String.length_toList]

theorem toList_line (columns : List (String × Nat)) (cell : String) (width : Nat) :
    (line (columns ++ [(cell, width)])).toList =
      " | ".toList.intercalate ((columns.map fun x => fill x.2 x.1.toList) ++ [cell.toList]) := by
  induction columns with
  | nil => simp [line]
  | cons x columns ih =>
    cases columns with
    | nil => simp [line]
    | cons y columns =>
      rw [List.cons_append, List.cons_append, line, ← List.cons_append, String.toList_append,
        String.toList_append, toList_pad, ih]
      · simp
      · simp

theorem toList_line_zip {cells : List String} (hcells : cells.length = t.width) (cell : String) :
    (line ((cells ++ [cell]).zip t.widths)).toList =
      " | ".toList.intercalate (t.blocks (cells.map String.toList) cell.toList) := by
  have hlength : cells.length = t.inputWidths.length := by rw [hcells, length_inputWidths]
  have hzip : (cells.zip t.inputWidths).map (fun x => fill x.2 x.1.toList) =
      List.zipWith fill t.inputWidths (cells.map String.toList) := by
    rw [List.zipWith_map_right, List.zip, List.map_zipWith, List.zipWith_comm]
  rw [widths_eq, List.zip_append hlength, List.zip_cons_cons, List.zip_nil_right, toList_line, hzip,
    blocks]

theorem toList_rule (t : TruthTable) : t.rule.toList = "-+-".toList.intercalate
    (t.blocks (t.inputWidths.map (List.replicate · '-'))
      (List.replicate (max t.label.length 1) '-')) := by
  have hfill : List.zipWith fill t.inputWidths (t.inputWidths.map (List.replicate · '-')) =
      t.inputWidths.map (List.replicate · '-') := by
    rw [List.zipWith_map_right, List.zipWith_self]
    exact List.map_congr_left fun w _ => by simp [fill]
  rw [rule, String.toList_intercalate, widths_eq, blocks, hfill]
  simp [Function.comp_def]

theorem toList_rowLine {row : List Bool × Bool} (hrow : row.1.length = t.width) :
    (t.rowLine row).toList = " | ".toList.intercalate
      (t.blocks (row.1.map fun b => [Bits.digit b]) [Bits.digit row.2]) := by
  rw [rowLine, List.map_append, List.map_singleton,
    toList_line_zip (by rw [List.length_map, hrow]), List.map_map]
  simp [Function.comp_def]

theorem fits_inputs (t : TruthTable) : t.Fits (t.inputs.map String.toList) := by
  rw [Fits, inputWidths, List.forall₂_map_left_iff, List.forall₂_map_right_iff, List.forall₂_same]
  exact fun x _ => String.length_toList.trans_le (le_max_left _ _)

theorem fits_rule (t : TruthTable) : t.Fits (t.inputWidths.map (List.replicate · '-')) := by
  rw [Fits, List.forall₂_map_left_iff, List.forall₂_same]
  exact fun w _ => List.length_replicate.le

theorem fits_bits {bits : List Bool} (hbits : bits.length = t.width) :
    t.Fits (bits.map fun b => [Bits.digit b]) := by
  rw [Fits, inputWidths, List.forall₂_map_left_iff, List.forall₂_map_right_iff]
  exact List.forall₂_iff_get.2 ⟨hbits, fun _ _ _ => le_max_right _ _⟩

theorem newline_notMem_blocks (hseparator : '\n' ∉ separator) (hcells : ∀ c ∈ cells, '\n' ∉ c)
    (houtput : '\n' ∉ output) : '\n' ∉ separator.intercalate (t.blocks cells output) := by
  refine notMem_intercalate hseparator (List.forall_mem_append.2 ⟨?_, by simpa using houtput⟩)
  intro block hblock
  obtain ⟨j, hj, rfl⟩ := List.getElem_of_mem hblock
  rw [List.getElem_zipWith]
  simp [fill, hcells _ (List.getElem_mem _)]

theorem length_of_mem_rows {row : List Bool × Bool} (hrow : row ∈ t.rows) :
    row.1.length = t.width := by
  obtain ⟨i, -, hi⟩ := List.mem_map.1 (List.of_mem_zip hrow).1
  rw [← hi, Bits.length_pattern]

theorem getElem?_rows {i : Nat} {row : List Bool × Bool} (h : t.rows[i]? = some row) :
    row.1 = Bits.pattern i t.width ∧ t.outputs[i]? = some row.2 := by
  obtain ⟨hrow, houtput⟩ := List.getElem?_zip_eq_some.1 h
  exact ⟨(Bits.getElem?_patterns_eq_some_iff.1 hrow).2.symm, houtput⟩

@[simp] theorem length_rows (t : TruthTable) : t.rows.length = 2 ^ t.width := by
  rw [rows, List.length_zip, t.complete, ← width, Bits.length_patterns, Nat.min_self]
  rfl

theorem newline_notMem_lines (h : ∀ x ∈ t.headers, '\n' ∉ x.toList) :
    ∀ l ∈ t.lines.map String.toList, '\n' ∉ l := by
  have hlabel : '\n' ∉ t.label.toList := h _ (List.mem_append_right _ List.mem_cons_self)
  have hinputs : ∀ c ∈ t.inputs.map String.toList, '\n' ∉ c :=
    List.forall_mem_map.2 fun x hx => h x (List.mem_append_left _ hx)
  have hdigit : ∀ b, '\n' ∉ [Bits.digit b] := fun b => by cases b <;> decide
  rw [lines, List.map_cons, List.map_cons, List.forall_mem_cons, List.forall_mem_cons]
  refine ⟨?_, ?_, ?_⟩
  · rw [headers, toList_line_zip rfl]
    exact newline_notMem_blocks (by decide) hinputs hlabel
  · rw [toList_rule]
    exact newline_notMem_blocks (by decide) (by simp) (by simp)
  · rw [List.forall_mem_map, List.forall_mem_map]
    intro row hrow
    rw [toList_rowLine (length_of_mem_rows hrow)]
    exact newline_notMem_blocks (by decide) (List.forall_mem_map.2 fun b _ => hdigit b) (hdigit _)

theorem exists_intercalate_append {α : Type} (separator : List α) (blocks : List (List α))
    (b : List α) : ∃ front, separator.intercalate (blocks ++ [b]) = front ++ b := by
  induction blocks with
  | nil => exact ⟨[], by simp⟩
  | cons b' blocks ih =>
    obtain ⟨front, hfront⟩ := ih
    cases blocks with
    | nil => exact ⟨b' ++ separator, by simp⟩
    | cons b'' blocks => exact ⟨b' ++ separator ++ front, by
        rw [List.cons_append, List.cons_append, List.intercalate_cons_cons, ← List.cons_append,
          hfront, ← List.append_assoc]⟩

theorem splitOn_text_eq (h : ∀ x ∈ t.headers, '\n' ∉ x.toList) :
    t.text.toList.splitOn '\n' = t.lines.map String.toList := by
  rw [text, String.toList_intercalate]
  exact List.splitOn_intercalate '\n' (newline_notMem_lines h) (by simp [lines])

/-- The last character of the text is the output of the last row. -/
theorem exists_getLast?_text (t : TruthTable) :
    ∃ b, t.text.toList.getLast? = some (Bits.digit b) := by
  have hrows : t.rows ≠ [] :=
    List.ne_nil_of_length_pos (t.length_rows ▸ Nat.two_pow_pos t.width)
  obtain ⟨rows, row, hlast⟩ : ∃ rows row, t.rows = rows ++ [row] :=
    ⟨_, _, (List.dropLast_append_getLast hrows).symm⟩
  have hlength : row.1.length = t.width := length_of_mem_rows (by simp [hlast])
  obtain ⟨front, hfront⟩ := exists_intercalate_append "\n".toList
    ((line (t.headers.zip t.widths) :: t.rule :: rows.map t.rowLine).map String.toList)
    (t.rowLine row).toList
  obtain ⟨cells, hcells⟩ := exists_intercalate_append " | ".toList
    (List.zipWith fill t.inputWidths (row.1.map fun b => [Bits.digit b])) [Bits.digit row.2]
  refine ⟨row.2, ?_⟩
  have htext : t.text.toList = front ++ (t.rowLine row).toList := by
    rw [text, String.toList_intercalate, lines, hlast, ← hfront]
    simp
  rw [htext, toList_rowLine hlength, blocks, hcells, ← List.append_assoc, List.getLast?_concat]

/-- **The lines of a table.** -/
theorem splitOn_text (h : ∀ x ∈ t.headers, '\n' ∉ x.toList) :
    ∃ header rule rows, t.text.toList.splitOn '\n' = header :: rule :: rows ∧
      (t.text.toList.splitOn '\n').length = 2 + 2 ^ t.width ∧
      t.text.toList.getLast? ≠ some '\n' ∧
      t.Shows " | ".toList (t.inputs.map String.toList) t.label.toList header ∧
      t.Shows "-+-".toList (t.inputWidths.map (List.replicate · '-'))
        (List.replicate (max t.label.length 1) '-') rule ∧
      ∀ (i : Nat) row, rows[i]? = some row → ∃ b, t.outputs[i]? = some b ∧
        t.Shows " | ".toList
          ((List.range t.width).map fun j => [Bits.digit (i.testBit (t.width - 1 - j))])
          [Bits.digit b] row := by
  obtain ⟨b, hlast⟩ := t.exists_getLast?_text
  refine ⟨_, _, _, splitOn_text_eq h, ?_, ?_, ?_, ?_, ?_⟩
  · rw [splitOn_text_eq h, lines]
    simp
    omega
  · rw [hlast]
    cases b <;> decide
  · rw [headers, toList_line_zip rfl]
    exact t.fits_inputs.shows rfl _
  · rw [toList_rule]
    exact t.fits_rule.shows rfl _
  · intro i row hrow
    rw [List.getElem?_map, List.getElem?_map, Option.map_map, Option.map_eq_some_iff] at hrow
    obtain ⟨⟨bits, b⟩, hi, rfl⟩ := hrow
    obtain ⟨rfl, houtput⟩ := getElem?_rows hi
    refine ⟨b, houtput, ?_⟩
    rw [Function.comp, toList_rowLine (Bits.length_pattern _ _)]
    have hfits := t.fits_bits (Bits.length_pattern i t.width)
    rw [Bits.pattern_eq_map, List.map_map] at hfits ⊢
    exact hfits.shows rfl _

/-- Names of different widths, one of them with a character of two bytes. -/
theorem splitOn_text_wide :
    let t : TruthTable := ⟨["Cin", "é"], "Cin xor é", [false, true, true, false], rfl⟩
    (∀ x ∈ t.headers, '\n' ∉ x.toList) ∧
      ∃ header rule row₀ row₁ row₂ row₃,
        t.text.toList.splitOn '\n' = [header, rule, row₀, row₁, row₂, row₃] ∧
        header.extract 3 6 = " | ".toList ∧ rule.extract 3 6 = "-+-".toList ∧
        row₂.extract 3 6 = " | ".toList ∧ row₂.extract 0 3 = "1  ".toList ∧
        row₂.drop 10 = ['1'] := by
  intro t
  have hnewline : ∀ x ∈ t.headers, '\n' ∉ x.toList := by decide
  obtain ⟨header, rule, rows, hsplit, hlength, -, hheader, hrule, hrows⟩ := splitOn_text hnewline
  have hfour : rows.length = 4 := by
    rw [hsplit] at hlength
    simpa [t, width] using hlength
  obtain ⟨row₀, row₁, row₂, row₃, rfl⟩ := List.length_eq_four.1 hfour
  obtain ⟨b, hb, hrow⟩ := hrows 2 row₂ rfl
  obtain rfl : true = b := Option.some.inj hb
  exact ⟨hnewline, header, rule, row₀, row₁, row₂, row₃, hsplit,
    hheader.separator 0 (by decide), hrule.separator 0 (by decide), hrow.separator 0 (by decide),
    (hrow.cell 0 ['1'] (by decide)).trans (by decide), hrow.output⟩

end TruthTable

end Switching
