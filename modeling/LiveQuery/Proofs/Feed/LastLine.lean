import Mathlib.Data.List.DropRight
import LiveQuery.Proofs.Feed.Framing
import LiveQuery.Feed.Line

/-!
# The last line of a text

A line feed counts among the bytes of the line that it ends, so the buffer of a reader never holds
more than the limit. The last line of a text may lack its line feed. Putting it there changes
nothing but the length of that line, by one, and this decides whether the line is too long exactly
if the line without it is as long as the limit.
-/

namespace LiveQuery.Feed

/-! ### Cutting the last line off -/

/-- What stands behind the last line feed of a text. -/
def lastLine (text : List UInt8) : List UInt8 := text.rtakeWhile (· != lineFeed)

/-- The text up to its last line feed. -/
def completeLines (text : List UInt8) : List UInt8 := text.rdropWhile (· != lineFeed)

theorem completeLines_append_lastLine (text : List UInt8) :
    completeLines text ++ lastLine text = text := by
  rw [completeLines, lastLine, List.rdropWhile, List.rtakeWhile, ← List.reverse_append,
    List.takeWhile_append_dropWhile, List.reverse_reverse]

theorem lineFeed_not_mem_lastLine (text : List UInt8) : lineFeed ∉ lastLine text := by
  intro hmem
  have hne := List.mem_rtakeWhile_imp hmem
  rw [bne_self_eq_false] at hne
  cases hne

/-- The lines of a text are the complete ones and then, with or without its line feed, the last one.
-/
theorem linesOf_completeLines_append (text tail : List UInt8) :
    linesOf (completeLines text ++ tail) = linesOf (completeLines text) ++ linesOf tail := by
  by_cases hnil : completeLines text = []
  · rw [hnil]
    rfl
  · have hlast : (completeLines text).getLast hnil = lineFeed := by
      have hnot : ¬ ((completeLines text).getLast hnil != lineFeed) = true :=
        List.rdropWhile_last_not (· != lineFeed) text hnil
      rwa [bne_iff_ne, ne_eq, not_not] at hnot
    rw [← List.dropLast_concat_getLast hnil, hlast, linesOf_append]

/-! ### The line feed of a line -/

/-- The line feed is a blank, and the blanks at the end of a line do not count. -/
theorem trimLine_terminated (line : List UInt8) :
    trimLine (line ++ [lineFeed]) = trimLine line := by
  rw [trimLine, trimLine, List.dropWhile_append]
  by_cases hnil : line.dropWhile isBlankByte = []
  · rw [hnil]
    rfl
  · rw [if_neg (by rwa [List.isEmpty_iff]), List.reverse_append]
    rfl

section Readings

variable {α : Type} (decode : List UInt8 → Option α)

theorem contents_terminated (line : List UInt8) :
    lineResult.contents decode (line ++ [lineFeed]) = lineResult.contents decode line := by
  rw [lineResult.contents, trimLine_terminated, lineResult.contents]

/-- What a last line gives, whose length is counted with or without its line feed. -/
def lastResult (limit length : Nat) (line : List UInt8) : List (Reading α) :=
  if limit < length then [.tooLong length limit] else (lineResult.contents decode line).toList

theorem toList_readLine (limit length : Nat) (line : List UInt8) :
    (readLine decode limit length line).toList = lastResult decode limit length line := by
  rw [readLine_eq, lastResult]
  split <;> rfl

theorem readings_completeLines_append (limit : Nat) (text tail : List UInt8) :
    readings decode limit (completeLines text ++ tail) =
      readings decode limit (completeLines text) ++ readings decode limit tail := by
  rw [readings, linesOf_completeLines_append, List.filterMap_append]
  rfl

theorem readings_of_line (limit : Nat) {text line : List UInt8} (h : linesOf text = [line]) :
    readings decode limit text = (readLine decode limit line.length line).toList := by
  have hline : linesOf text = line :: linesOf [] := h
  rw [LineReader.readings_of_linesOf decode limit hline, show readings decode limit [] = [] from rfl,
    List.append_nil]

theorem readings_unterminated (limit : Nat) (text : List UInt8) :
    readings decode limit text = readings decode limit (completeLines text) ++
      lastResult decode limit (lastLine text).length (lastLine text) := by
  conv => lhs; rw [← completeLines_append_lastLine text]
  rw [readings_completeLines_append, ← toList_readLine]
  congr 1
  by_cases hnil : lastLine text = []
  · rw [hnil]
    rfl
  · apply readings_of_line
    rw [linesOf_of_not_mem (lineFeed_not_mem_lastLine text), if_neg hnil]

theorem readings_terminated (limit : Nat) (text : List UInt8) :
    readings decode limit (text ++ [lineFeed]) = readings decode limit (completeLines text) ++
      lastResult decode limit ((lastLine text).length + 1) (lastLine text) := by
  conv => lhs; rw [← completeLines_append_lastLine text]
  have hline := linesOf_line (lineFeed_not_mem_lastLine text) []
  rw [List.append_assoc, readings_completeLines_append, readings_of_line decode limit hline,
    toList_readLine, List.length_append, List.length_singleton, lastResult, contents_terminated]
  rfl

/-! ### With and without the line feed -/

/-- A reading without the length of a line that is too long. -/
def Reading.unmeasured : Reading α → Reading α
  | .value a => .value a
  | .undecodable => .undecodable
  | .tooLong _ limit => .tooLong 0 limit

theorem contents_ne_tooLong (line : List UInt8) (length limit : Nat) :
    ((lineResult.contents decode line).toList).map Reading.unmeasured ≠
      [.tooLong length limit] := by
  unfold lineResult.contents
  split
  · exact nofun
  · split <;> exact nofun

/-- One byte more makes a difference exactly if it is the first one beyond the limit. -/
theorem lastResult_succ_iff (limit length : Nat) (line : List UInt8) :
    (lastResult decode limit (length + 1) line).map Reading.unmeasured =
        (lastResult decode limit length line).map Reading.unmeasured ↔ length ≠ limit := by
  unfold lastResult
  rcases Nat.lt_trichotomy length limit with hlt | heq | hgt
  · rw [if_neg (by omega), if_neg (by omega)]
    exact iff_of_true rfl (by omega)
  · rw [if_pos (by omega), if_neg (by omega)]
    refine iff_of_false (fun h => ?_) (by omega)
    exact contents_ne_tooLong decode line 0 limit h.symm
  · rw [if_pos (by omega), if_pos (by omega)]
    exact iff_of_true rfl (by omega)

/-- A text gives the same readings with a line feed behind it as without, except for the length of a
last line that is too long either way and except if the last line is exactly as long as the limit.
In that case it is read without its line feed and too long with it. -/
theorem last_line_terminated (limit : Option Nat) {chunks terminated : List (List UInt8)}
    (h : terminated.flatten = chunks.flatten ++ [lineFeed]) :
    let text := chunks.flatten
    let max := limit.getD unlimited
    let earlier := readings decode max (completeLines text)
    (LineReader.ofChunks limit chunks).readAll decode =
        earlier ++ lastResult decode max (lastLine text).length (lastLine text) ∧
      (LineReader.ofChunks limit terminated).readAll decode =
        earlier ++ lastResult decode max ((lastLine text).length + 1) (lastLine text) ∧
      (((LineReader.ofChunks limit terminated).readAll decode).map Reading.unmeasured =
          ((LineReader.ofChunks limit chunks).readAll decode).map Reading.unmeasured ↔
        (lastLine text).length ≠ max) := by
  intro text max earlier
  have hplain : (LineReader.ofChunks limit chunks).readAll decode =
      earlier ++ lastResult decode max (lastLine text).length (lastLine text) := by
    rw [LineReader.readAll_eq_readings]
    exact readings_unterminated decode max text
  have hterminated : (LineReader.ofChunks limit terminated).readAll decode =
      earlier ++ lastResult decode max ((lastLine text).length + 1) (lastLine text) := by
    have hreadings := readings_terminated decode max text
    rw [← h] at hreadings
    rw [LineReader.readAll_eq_readings]
    exact hreadings
  refine ⟨hplain, hterminated, ?_⟩
  rw [hplain, hterminated, List.map_append, List.map_append, List.append_cancel_left_eq]
  exact lastResult_succ_iff decode max (lastLine text).length (lastLine text)

end Readings

/-- The second of two lines has exactly as many bytes as the limit. -/
theorem last_line_terminated_of_full_line :
    let chunks : List (List UInt8) := [[49, 10], [50, 50]]
    let terminated : List (List UInt8) := [[49, 10, 50], [50, 10]]
    terminated.flatten = chunks.flatten ++ [lineFeed] ∧
      (LineReader.ofChunks (some 2) chunks).readAll some = [.value [49], .value [50, 50]] ∧
      (LineReader.ofChunks (some 2) terminated).readAll some = [.value [49], .tooLong 3 2] := by
  intro chunks terminated
  have h : terminated.flatten = chunks.flatten ++ [lineFeed] := rfl
  obtain ⟨hplain, hterminated, -⟩ := last_line_terminated some (some 2) h
  exact ⟨h, hplain, hterminated⟩

/-- Two braces are within a limit of two bytes as long as no line feed stands behind them. -/
theorem line_feed_decides : ¬ ∀ (limit : Nat) (text : List UInt8),
    text.getLast? ≠ some lineFeed →
      ((LineReader.ofChunks (some limit) [text ++ [lineFeed]]).readAll decodeLine).map
          Reading.unmeasured =
        ((LineReader.ofChunks (some limit) [text]).readAll decodeLine).map Reading.unmeasured := by
  intro h
  have hbraces := h 2 [123, 125] (by decide)
  rw [LineReader.readAll_eq_readings, LineReader.readAll_eq_readings] at hbraces
  exact (lastResult_succ_iff decodeLine 2 2 [123, 125]).1 hbraces rfl

end LiveQuery.Feed
