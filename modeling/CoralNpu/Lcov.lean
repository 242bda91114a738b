/-
**Coverage files in the format of `lcov`.**

A coverage file is a text of lines, each a tag and what belongs to it.  A function is declared at a
line and counted under its name; a line is counted under its number; at the end of a record stand
the totals.

Main definitions:

* `Lcov.Line`, `Lcov.Line.print`, `Lcov.Line.read` — a line, printed and read;
* `Lcov.printAll`, `Lcov.readAll` — a whole file;
* `Lcov.record` — the record of counted functions, one a line;
* `Lcov.Consistent` — what the lines of a record say agrees.

Main results:

* `Lcov.readAll_printAll` — **a file is read back as it was printed**;
* `Lcov.consistent_record` — the record of functions with different names is consistent.
-/

import CoralNpu.AsciiText
import Mathlib.Data.List.Nodup
import Mathlib.Data.List.Zip

set_option relaxedAutoImplicit false
set_option autoImplicit false

namespace Lcov

open AsciiText

/-! ### Lines -/

/-- A line of a coverage file. -/
inductive Line where
  | testName (name : Text)
  | sourceFile (name : Text)
  | function (line : ℕ) (name : Text)
  | functionCount (count : ℕ) (name : Text)
  | lineCount (line count : ℕ)
  | functionsFound (n : ℕ)
  | functionsHit (n : ℕ)
  | linesFound (n : ℕ)
  | linesHit (n : ℕ)
  | endOfRecord
  deriving DecidableEq

/-- A text in front of the first occurrence of a character, and the text behind it. -/
def cut (c : Char) : Text → Option (Text × Text)
  | [] => none
  | c' :: text => if c' = c then some ([], text) else (cut c text).map fun (a, b) => (c' :: a, b)

theorem cut_append {c : Char} {a : Text} (h : c ∉ a) (b : Text) :
    cut c (a ++ c :: b) = some (a, b) := by
  induction a with
  | nil => rw [List.nil_append, cut, if_pos rfl]
  | cons c' a ih =>
      rw [List.mem_cons, not_or] at h
      rw [List.cons_append, cut, if_neg fun heq => h.1 heq.symm, ih h.2]
      rfl

namespace Line

/-- Two fields. -/
def fields (a b : Text) : Text := a ++ ',' :: b

/-- The text of a line, without the end of the line. -/
def print : Line → Text
  | testName name => "TN:".toList ++ name
  | sourceFile name => "SF:".toList ++ name
  | function line name => "FN:".toList ++ fields (decimal line) name
  | functionCount count name => "FNDA:".toList ++ fields (decimal count) name
  | lineCount line count => "DA:".toList ++ fields (decimal line) (decimal count)
  | functionsFound n => "FNF:".toList ++ decimal n
  | functionsHit n => "FNH:".toList ++ decimal n
  | linesFound n => "LF:".toList ++ decimal n
  | linesHit n => "LH:".toList ++ decimal n
  | endOfRecord => "end_of_record".toList

/-- A number and a name. -/
def readNamed (make : ℕ → Text → Line) (body : Text) : Option Line := do
  let (number, name) ← cut ',' body
  return make (← parseNat number) name

/-- Two numbers. -/
def readNumbers (make : ℕ → ℕ → Line) (body : Text) : Option Line := do
  let (a, b) ← cut ',' body
  return make (← parseNat a) (← parseNat b)

/-- What a tag says of the text behind it. -/
def readTagged (tag body : Text) : Option Line :=
  if tag = "TN".toList then some (.testName body)
  else if tag = "SF".toList then some (.sourceFile body)
  else if tag = "FN".toList then readNamed .function body
  else if tag = "FNDA".toList then readNamed .functionCount body
  else if tag = "DA".toList then readNumbers .lineCount body
  else if tag = "FNF".toList then (parseNat body).map .functionsFound
  else if tag = "FNH".toList then (parseNat body).map .functionsHit
  else if tag = "LF".toList then (parseNat body).map .linesFound
  else if tag = "LH".toList then (parseNat body).map .linesHit
  else none

/-- The line with a text. -/
def read (text : Text) : Option Line :=
  match cut ':' text with
  | some (tag, body) => readTagged tag body
  | none => if text = "end_of_record".toList then some .endOfRecord else none

theorem not_mem_decimal {c : Char} (hc : isSeparator c = true) (n : ℕ) : c ∉ decimal n := by
  intro hmem
  have hword := (isWord_decimal n).2 c hmem
  rw [hc] at hword
  cases hword

theorem cut_fields (n : ℕ) (b : Text) : cut ',' (fields (decimal n) b) = some (decimal n, b) :=
  cut_append (not_mem_decimal rfl n) b

theorem readNamed_fields (make : ℕ → Text → Line) (n : ℕ) (name : Text) :
    readNamed make (fields (decimal n) name) = some (make n name) := by
  rw [readNamed, cut_fields]
  simp only [Option.bind_eq_bind, Option.bind_some, parseNat_decimal]
  rfl

theorem readNumbers_fields (make : ℕ → ℕ → Line) (a b : ℕ) :
    readNumbers make (fields (decimal a) (decimal b)) = some (make a b) := by
  rw [readNumbers, cut_fields]
  simp only [Option.bind_eq_bind, Option.bind_some, parseNat_decimal]
  rfl

/-- A tag is cut off. -/
theorem read_tag {tag : Text} (h : ':' ∉ tag) (body : Text) :
    read (tag ++ ':' :: body) = readTagged tag body := by
  rw [read, cut_append h]

/-- **A line is read back as it was printed.** -/
theorem read_print (line : Line) : read line.print = some line := by
  cases line with
  | testName name => exact read_tag (by decide : ':' ∉ "TN".toList) name
  | sourceFile name => exact read_tag (by decide : ':' ∉ "SF".toList) name
  | function n name =>
      refine (read_tag (by decide : ':' ∉ "FN".toList) (fields (decimal n) name)).trans ?_
      rw [readTagged, if_neg (by decide), if_neg (by decide), if_pos rfl, readNamed_fields]
  | functionCount n name =>
      refine (read_tag (by decide : ':' ∉ "FNDA".toList) (fields (decimal n) name)).trans ?_
      rw [readTagged, if_neg (by decide), if_neg (by decide), if_neg (by decide), if_pos rfl,
        readNamed_fields]
  | lineCount n m =>
      refine (read_tag (by decide : ':' ∉ "DA".toList) (fields (decimal n) (decimal m))).trans ?_
      rw [readTagged, if_neg (by decide), if_neg (by decide), if_neg (by decide),
        if_neg (by decide), if_pos rfl, readNumbers_fields]
  | functionsFound n =>
      refine (read_tag (by decide : ':' ∉ "FNF".toList) _).trans ?_
      exact congrArg (Option.map functionsFound) (parseNat_decimal n)
  | functionsHit n =>
      refine (read_tag (by decide : ':' ∉ "FNH".toList) _).trans ?_
      exact congrArg (Option.map functionsHit) (parseNat_decimal n)
  | linesFound n =>
      refine (read_tag (by decide : ':' ∉ "LF".toList) _).trans ?_
      exact congrArg (Option.map linesFound) (parseNat_decimal n)
  | linesHit n =>
      refine (read_tag (by decide : ':' ∉ "LH".toList) _).trans ?_
      exact congrArg (Option.map linesHit) (parseNat_decimal n)
  | endOfRecord => rfl

/-- The names of a line stay on the line. -/
def OnOneLine : Line → Prop
  | testName name | sourceFile name | function _ name | functionCount _ name => '\n' ∉ name
  | _ => True

theorem not_mem_fields {a b : Text} (ha : '\n' ∉ a) (hb : '\n' ∉ b) : '\n' ∉ fields a b := by
  intro hmem
  rcases List.mem_append.1 hmem with hmem | hmem
  · exact ha hmem
  · rcases List.mem_cons.1 hmem with heq | hmem
    · exact absurd heq (by decide)
    · exact hb hmem

theorem not_mem_tag {tag body : Text} (htag : '\n' ∉ tag) (hbody : '\n' ∉ body) :
    '\n' ∉ tag ++ body := by
  rw [List.mem_append, not_or]
  exact ⟨htag, hbody⟩

theorem not_mem_print {line : Line} (h : line.OnOneLine) : '\n' ∉ line.print := by
  have hnumber (n : ℕ) : '\n' ∉ decimal n := not_mem_decimal rfl n
  cases line with
  | testName name => exact not_mem_tag (by decide) h
  | sourceFile name => exact not_mem_tag (by decide) h
  | function n name => exact not_mem_tag (by decide) (not_mem_fields (hnumber n) h)
  | functionCount n name => exact not_mem_tag (by decide) (not_mem_fields (hnumber n) h)
  | lineCount n m => exact not_mem_tag (by decide) (not_mem_fields (hnumber n) (hnumber m))
  | functionsFound n | functionsHit n | linesFound n | linesHit n =>
    exact not_mem_tag (by decide) (hnumber n)
  | endOfRecord => exact (by decide : '\n' ∉ "end_of_record".toList)

theorem print_ne_nil (line : Line) : line.print ≠ [] := by
  cases line <;> exact List.cons_ne_nil _ _

end Line

/-! ### Files -/

/-- The text of a file. -/
def printAll (file : List Line) : Text := file.flatMap fun line => line.print ++ ['\n']

/-- The lines of a file. -/
def readAll (text : Text) : Option (List Line) := (lines text).mapM Line.read

theorem printAll_append (file file' : List Line) :
    printAll (file ++ file') = printAll file ++ printAll file' :=
  List.flatMap_append

theorem lines_printAll {file : List Line} (h : ∀ line ∈ file, line.OnOneLine) :
    lines (printAll file) = file.map Line.print := by
  induction file with
  | nil => rfl
  | cons line file ih =>
      have hline := h line List.mem_cons_self
      rw [printAll, List.flatMap_cons, List.append_assoc, List.singleton_append, lines_append,
        lines_of_not_mem (Line.not_mem_print hline) line.print_ne_nil, ← printAll,
        ih fun line' hmem => h line' (List.mem_cons_of_mem _ hmem)]
      rfl

/-- **A file is read back as it was printed.** -/
theorem readAll_printAll {file : List Line} (h : ∀ line ∈ file, line.OnOneLine) :
    readAll (printAll file) = some file := by
  rw [readAll, lines_printAll h]
  clear h
  induction file with
  | nil => rfl
  | cons line file ih =>
      rw [List.map_cons, List.mapM_cons, Line.read_print]
      simp only [Option.bind_eq_bind, Option.bind_some, ih]
      rfl

/-! ### Records -/

/-- The functions that are declared, with their lines. -/
def functions (file : List Line) : List (ℕ × Text) :=
  file.filterMap fun
    | .function line name => some (line, name)
    | _ => none

/-- The functions that are counted. -/
def functionCounts (file : List Line) : List (Text × ℕ) :=
  file.filterMap fun
    | .functionCount count name => some (name, count)
    | _ => none

/-- The lines that are counted. -/
def lineCounts (file : List Line) : List (ℕ × ℕ) :=
  file.filterMap fun
    | .lineCount line count => some (line, count)
    | _ => none

/-- What is counted more than zero times. -/
def hits {α : Type} (counts : List (α × ℕ)) : ℕ := counts.countP fun count => 0 < count.2

/-- **What the lines of a record say agrees**: every function is declared once, at a line of its
own, and counted as often as its line, and the totals are those of the lines above. -/
structure Consistent (file : List Line) : Prop where
  declared : (functions file).map Prod.snd = (functionCounts file).map Prod.fst
  nodup : ((functionCounts file).map Prod.fst).Nodup
  numbered : (functions file).map Prod.fst = List.range' 1 (functions file).length
  counted : lineCounts file = ((functions file).map Prod.fst).zip
    ((functionCounts file).map Prod.snd)
  functionsFound : ∀ n, .functionsFound n ∈ file → n = (functionCounts file).length
  functionsHit : ∀ n, .functionsHit n ∈ file → n = hits (functionCounts file)
  linesFound : ∀ n, .linesFound n ∈ file → n = (lineCounts file).length
  linesHit : ∀ n, .linesHit n ∈ file → n = hits (lineCounts file)
  ended : file.getLast? = some .endOfRecord

/-- A total, or the end. -/
def Line.IsTotal : Line → Prop
  | functionsFound _ | functionsHit _ | linesFound _ | linesHit _ | endOfRecord => True
  | _ => False

/-- The lines of counted functions, from a line on. -/
def recordLines : ℕ → List (Text × ℕ) → List Line
  | _, [] => []
  | line, (name, count) :: entries =>
      .function line name :: .functionCount count name :: .lineCount line count :: recordLines
        (line + 1) entries

/-- The totals of a record. -/
def totals (entries : List (Text × ℕ)) : List Line :=
  [.functionsFound entries.length, .functionsHit (hits entries), .linesFound entries.length,
    .linesHit (hits entries), .endOfRecord]

/-- The record of counted functions, one a line. -/
def record (testName sourceFile : Text) (entries : List (Text × ℕ)) : List Line :=
  [.testName testName, .sourceFile sourceFile] ++ recordLines 1 entries ++ totals entries

theorem functions_recordLines (line : ℕ) (entries : List (Text × ℕ)) :
    functions (recordLines line entries) = (List.range' line entries.length).zip
      (entries.map Prod.fst) := by
  induction entries generalizing line with
  | nil => rfl
  | cons entry entries ih => exact congrArg ((line, entry.1) :: ·) (ih (line + 1))

theorem functionCounts_recordLines (line : ℕ) (entries : List (Text × ℕ)) :
    functionCounts (recordLines line entries) = entries := by
  induction entries generalizing line with
  | nil => rfl
  | cons entry entries ih => exact congrArg (entry :: ·) (ih (line + 1))

theorem lineCounts_recordLines (line : ℕ) (entries : List (Text × ℕ)) :
    lineCounts (recordLines line entries) = (List.range' line entries.length).zip
      (entries.map Prod.snd) := by
  induction entries generalizing line with
  | nil => rfl
  | cons entry entries ih => exact congrArg ((line, entry.2) :: ·) (ih (line + 1))

section Record

variable (testName sourceFile : Text) (entries : List (Text × ℕ))

theorem functions_record : functions (record testName sourceFile entries) =
    (List.range' 1 entries.length).zip (entries.map Prod.fst) := by
  rw [record, functions, List.filterMap_append, List.filterMap_append]
  exact (List.append_nil _).trans (functions_recordLines 1 entries)

/-- The functions that a record counts are those it was made of. -/
theorem functionCounts_record : functionCounts (record testName sourceFile entries) = entries := by
  rw [record, functionCounts, List.filterMap_append, List.filterMap_append]
  exact (List.append_nil _).trans (functionCounts_recordLines 1 entries)

theorem lineCounts_record : lineCounts (record testName sourceFile entries) =
    (List.range' 1 entries.length).zip (entries.map Prod.snd) := by
  rw [record, lineCounts, List.filterMap_append, List.filterMap_append]
  exact (List.append_nil _).trans (lineCounts_recordLines 1 entries)

/-- The lines of functions. -/
theorem mem_recordLines {line : Line} {n : ℕ} (h : line ∈ recordLines n entries) :
    (∃ l name, line = .function l name ∧ ∃ count, (name, count) ∈ entries) ∨
      (∃ count name, line = .functionCount count name ∧ (name, count) ∈ entries) ∨
        ∃ l count, line = .lineCount l count := by
  induction entries generalizing n with
  | nil => cases h
  | cons entry entries ih =>
      rw [recordLines, List.mem_cons, List.mem_cons, List.mem_cons] at h
      rcases h with rfl | rfl | rfl | h
      · exact .inl ⟨n, entry.1, rfl, entry.2, List.mem_cons_self⟩
      · exact .inr (.inl ⟨entry.2, entry.1, rfl, List.mem_cons_self⟩)
      · exact .inr (.inr ⟨n, entry.2, rfl⟩)
      · rcases ih h with ⟨l, name, rfl, count, hmem⟩ | ⟨count, name, rfl, hmem⟩ | hline
        · exact .inl ⟨l, name, rfl, count, List.mem_cons_of_mem _ hmem⟩
        · exact .inr (.inl ⟨count, name, rfl, List.mem_cons_of_mem _ hmem⟩)
        · exact .inr (.inr hline)

/-- The totals of a record are the lines that are no names and no counts. -/
theorem mem_totals_of_mem_record {line : Line} (h : line ∈ record testName sourceFile entries)
    (htotal : line.IsTotal) : line ∈ totals entries := by
  have hlines : ∀ n, line ∉ recordLines n entries := by
    intro n hmem
    rcases mem_recordLines entries hmem with
      ⟨l, name, rfl, -⟩ | ⟨count, name, rfl, -⟩ | ⟨l, count, rfl⟩ <;>
      exact htotal
  rw [record, List.append_assoc, List.mem_append, List.mem_append] at h
  rcases h with h | h | h
  · rcases List.mem_cons.1 h with rfl | h
    · exact htotal.elim
    · rw [List.mem_singleton.1 h] at htotal
      exact htotal.elim
  · exact absurd h (hlines 1)
  · exact h

theorem hits_zip {entries : List (Text × ℕ)} {numbers : List ℕ}
    (h : numbers.length = entries.length) :
    hits (numbers.zip (entries.map Prod.snd)) = hits entries := by
  rw [hits, hits]
  induction entries generalizing numbers with
  | nil => rw [List.map_nil, List.zip_nil_right, List.countP_nil, List.countP_nil]
  | cons entry entries ih =>
      cases numbers with
      | nil => cases h
      | cons number numbers =>
          rw [List.map_cons, List.zip_cons_cons, List.countP_cons, List.countP_cons,
            ih (Nat.succ.inj h)]

/-- **The record of functions with different names is consistent.** -/
theorem consistent_record (hnodup : (entries.map Prod.fst).Nodup) :
    Consistent (record testName sourceFile entries) := by
  have hnames : (List.range' 1 entries.length).length = (entries.map Prod.fst).length := by
    rw [List.length_range', List.length_map]
  have hcounts : (List.range' 1 entries.length).length = (entries.map Prod.snd).length := by
    rw [List.length_range', List.length_map]
  have hlines : (lineCounts (record testName sourceFile entries)).length = entries.length := by
    rw [lineCounts_record, List.length_zip, ← hcounts, Nat.min_self, List.length_range']
  have hlineHits : hits (lineCounts (record testName sourceFile entries)) = hits entries := by
    rw [lineCounts_record, hits_zip (by rw [List.length_range'])]
  have htotals {line : Line} (h : line ∈ record testName sourceFile entries)
      (htotal : line.IsTotal) :
      line = .functionsFound entries.length ∨ line = .functionsHit (hits entries) ∨
        line = .linesFound entries.length ∨ line = .linesHit (hits entries) ∨
        line = .endOfRecord := by
    simpa only [totals, List.mem_cons, List.not_mem_nil, or_false] using
      mem_totals_of_mem_record testName sourceFile entries h htotal
  refine ⟨?_, ?_, ?_, ?_,
    fun n hmem => ?_, fun n hmem => ?_, fun n hmem => ?_, fun n hmem => ?_, ?_⟩
  · rw [functions_record, functionCounts_record, List.map_snd_zip (Nat.le_of_eq hnames.symm)]
  · rwa [functionCounts_record]
  · rw [functions_record, List.map_fst_zip (Nat.le_of_eq hnames), List.length_zip, ← hnames,
      Nat.min_self, List.length_range']
  · rw [functions_record, functionCounts_record, lineCounts_record,
      List.map_fst_zip (Nat.le_of_eq hnames)]
  · rw [functionCounts_record]
    rcases htotals hmem trivial with h | h | h | h | h <;> cases h
    rfl
  · rw [functionCounts_record]
    rcases htotals hmem trivial with h | h | h | h | h <;> cases h
    rfl
  · rw [hlines]
    rcases htotals hmem trivial with h | h | h | h | h <;> cases h
    rfl
  · rw [hlineHits]
    rcases htotals hmem trivial with h | h | h | h | h <;> cases h
    rfl
  · rw [record, List.getLast?_append]
    rfl

/-- The lines of a record hold its names, and only those. -/
theorem onOneLine_record (htestName : '\n' ∉ testName) (hsourceFile : '\n' ∉ sourceFile)
    (hnames : ∀ entry ∈ entries, '\n' ∉ entry.1) :
    ∀ line ∈ record testName sourceFile entries, line.OnOneLine := by
  intro line hmem
  rw [record, List.append_assoc, List.mem_append, List.mem_append] at hmem
  rcases hmem with hmem | hmem | hmem
  · rcases List.mem_cons.1 hmem with rfl | hmem
    · exact htestName
    · rw [List.mem_singleton.1 hmem]
      exact hsourceFile
  · rcases mem_recordLines entries hmem with
      ⟨l, name, rfl, count, hentry⟩ | ⟨count, name, rfl, hentry⟩ |
      ⟨l, count, rfl⟩
    · exact hnames _ hentry
    · exact hnames _ hentry
    · trivial
  · simp only [totals, List.mem_cons, List.not_mem_nil, or_false] at hmem
    rcases hmem with rfl | rfl | rfl | rfl | rfl <;> trivial

end Record

end Lcov
