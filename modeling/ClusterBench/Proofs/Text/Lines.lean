import ClusterBench.Proofs.Text.Words

/-!
# Lines of a text

A text is a last line without a line feed, or a line with a line feed and another text behind it.
-/

namespace ClusterBench

variable {line rest cs : List Char}

/-- Induction on the lines of a text. -/
theorem lines_induction {motive : List Char → Prop}
    (last : ∀ line, '\n' ∉ line → motive line)
    (more : ∀ line rest, '\n' ∉ line → motive rest → motive (line ++ '\n' :: rest))
    (cs : List Char) : motive cs := by
  induction cs using parts_induction (· == '\n') with
  | last part hpart => exact last part (forall_beq_eq_false_iff.mp hpart)
  | more part c rest hpart hc ih =>
    rw [eq_of_beq hc]
    exact more part rest (forall_beq_eq_false_iff.mp hpart) ih

def chomp (line : List Char) : List Char :=
  if line.getLast? = some '\r' then line.dropLast else line

theorem linesOf_of_notMem (h : '\n' ∉ line) : linesOf line = if line = [] then [] else [line] := by
  rw [linesOf, splitWhere_part (forall_beq_eq_false_iff.mpr h)]
  cases line <;> rfl

theorem linesOf_line (h : '\n' ∉ line) (rest : List Char) :
    linesOf (line ++ '\n' :: rest) = chomp line :: linesOf rest := by
  have hne := splitWhere_ne_nil (· == '\n') rest
  rw [linesOf, linesOf,
    splitWhere_part_append (forall_beq_eq_false_iff.mpr h) (beq_self_eq_true '\n'),
    List.dropLast_cons_of_ne_nil hne, List.getLast?_cons_of_ne_nil hne, List.map_cons]
  split <;> rfl

theorem chomp_concat (line : List Char) : chomp (line ++ ['\r']) = line := by
  rw [chomp, if_pos (by simp), List.dropLast_concat]

theorem chomp_of_ne (h : line.getLast? ≠ some '\r') : chomp line = line := if_neg h

def lineEnd (carriage : Bool) : List Char := if carriage then ['\r', '\n'] else ['\n']

/-- A line without control characters, whatever ends it. -/
theorem linesOf_solid (h : ∀ c ∈ line, ¬c < ' ') (carriage : Bool) (rest : List Char) :
    linesOf (line ++ (lineEnd carriage ++ rest)) = line :: linesOf rest := by
  have hfeed : '\n' ∉ line := fun hmem => h _ hmem (by decide)
  cases carriage with
  | false =>
    have hlast : line.getLast? ≠ some '\r' := fun hlast =>
      h _ (List.mem_of_getLast? hlast) (by decide)
    exact (linesOf_line hfeed rest).trans (by rw [chomp_of_ne hlast])
  | true =>
    have hfeed' : '\n' ∉ line ++ ['\r'] := by simp [hfeed]
    have hline := linesOf_line hfeed' rest
    rwa [chomp_concat, List.append_assoc] at hline

/-- Lines one after the other with line feeds between them. -/
theorem intercalate_cons (line : List Char) (lines : List (List Char)) :
    ['\n'].intercalate (line :: lines) = line ++ lines.flatMap (List.cons '\n') := by
  induction lines generalizing line with
  | nil => simp
  | cons next lines ih =>
    rw [List.intercalate_cons_cons, ih, List.flatMap_cons]
    simp

end ClusterBench
