/-
  The lines of a struct, part by part.

  A struct is written as a comment, a heading, the lines of its members and an end, or on one
  line; so what holds of the lines of each part holds of all of them
  (`Struct.forall_mem_lines`). The lines of members are indented (`Member.head?_of_mem_lines`).
-/
import NodeHeader.Cpp.Struct

namespace NodeHeader.Cpp

theorem Member.head?_of_mem_lines {m : Member} :
    ∀ line ∈ m.lines, line.toList.head? = some ' ' := by
  cases m <;> simp [lines, indent]

namespace Struct

theorem lines_ne_nil (s : Struct) : s.lines ≠ [] := by
  unfold lines
  split <;> simp

/-- What holds of the lines of every part of a struct holds of its lines. -/
theorem forall_mem_lines {P : String → Prop} {s : Struct} (hcomment : ∀ line ∈ s.comment, P line)
    (hwhole : P ("struct " ++ s.name ++ " \x7b \x7d;")) (hheading : ∀ line ∈ s.heading, P line)
    (hmembers : ∀ m ∈ s.members, ∀ line ∈ m.lines, P line) (hend : P "\x7d;") :
    ∀ line ∈ s.lines, P line := by
  intro line hline
  rw [lines, List.mem_append] at hline
  rcases hline with hline | hline
  · exact hcomment line hline
  split at hline
  · rwa [List.mem_singleton.1 hline]
  · simp only [List.mem_append, List.mem_flatMap, List.mem_singleton] at hline
    rcases hline with (hline | ⟨m, hm, hline⟩) | rfl
    · exact hheading line hline
    · exact hmembers m hm line hline
    · exact hend

end Struct

end NodeHeader.Cpp
