import Mathlib

/-!
Words inside longer lists. A maximal run ends in one way, and a word whose first
letter does not come again in it cannot reach across a place where that letter stands.
-/

namespace CLib

/-! Maximal runs. -/

theorem takeWhile_run {α : Type} {inside : α → Bool} {run rest : List α}
    (all : ∀ c ∈ run, inside c = true) (ends : ∀ c ∈ rest.head?, inside c = false) :
    (run ++ rest).takeWhile inside = run := by
  rw [List.takeWhile_append_of_pos all]
  cases rest with
  | nil => simp
  | cons c later => rw [List.takeWhile_cons_of_neg (by simp [ends c rfl]), List.append_nil]

theorem dropWhile_run {α : Type} {inside : α → Bool} {run rest : List α}
    (all : ∀ c ∈ run, inside c = true) (ends : ∀ c ∈ rest.head?, inside c = false) :
    (run ++ rest).dropWhile inside = rest := by
  rw [List.dropWhile_append_of_pos all]
  cases rest with
  | nil => rfl
  | cons c later => exact List.dropWhile_cons_of_neg (by simp [ends c rfl])

/-- Two splits of one list into a run and a rest that does not continue the run agree. -/
theorem run_unique {α : Type} {inside : α → Bool} {first second rest other : List α}
    (firstRun : ∀ c ∈ first, inside c = true) (secondRun : ∀ c ∈ second, inside c = true)
    (firstEnds : ∀ c ∈ rest.head?, inside c = false)
    (secondEnds : ∀ c ∈ other.head?, inside c = false)
    (same : first ++ rest = second ++ other) : first = second ∧ rest = other := by
  have equal : first = second := by
    rw [← takeWhile_run firstRun firstEnds, same, takeWhile_run secondRun secondEnds]
  subst second
  exact ⟨rfl, List.append_cancel_left same⟩

/-! Words with a mark in front. -/

section Marked

variable {α : Type} {mark : α} {word before after : List α}

theorem marked_start (fresh : mark ∉ word) (nonempty : before ≠ [])
    (starts : mark :: word <+: before ++ mark :: after) : mark :: word <+: before := by
  obtain ⟨rest, split⟩ := starts
  rcases List.append_eq_append_iff.mp split with ⟨part, inside, _⟩ | ⟨part, longer, beyond⟩
  · exact ⟨part, inside.symm⟩
  · cases part with
    | nil => exact ⟨[], by simpa using longer⟩
    | cons c part =>
        obtain ⟨first, later, rfl⟩ := List.exists_cons_of_ne_nil nonempty
        have same : c = mark := (List.cons.inj beyond).1.symm
        have inside : word = later ++ c :: part := (List.cons.inj longer).2
        exact absurd (by simp [inside, same]) fresh

theorem marked_inside (fresh : mark ∉ word) (found : mark :: word <:+: before ++ mark :: after) :
    mark :: word <:+: before ∨ mark :: word <:+: mark :: after := by
  rcases List.infix_append_iff_ne_nil.mp found with
    inFront | behind | ⟨first, second, firstSome, secondSome, split, _, starts⟩
  · exact Or.inl inFront
  · exact Or.inr behind
  · obtain ⟨c, later, rfl⟩ := List.exists_cons_of_ne_nil firstSome
    obtain ⟨d, rest, rfl⟩ := List.exists_cons_of_ne_nil secondSome
    have same : d = mark := (List.cons_prefix_cons.mp starts).1
    have inside : word = later ++ d :: rest := (List.cons.inj split).2
    exact absurd (by simp [inside, same]) fresh

theorem marked_skip (absent : mark ∉ before) (found : mark :: word <:+: before ++ after) :
    mark :: word <:+: after := by
  induction before with
  | nil => exact found
  | cons c rest ih =>
      simp only [List.mem_cons, not_or] at absent
      rcases List.infix_cons_iff.mp found with here | later
      · exact absurd (List.cons_prefix_cons.mp here).1 absent.1
      · exact ih absent.2 later

/-- A place where the mark stands, with the word nowhere before it and nowhere behind it, is the
only place where the word can stand. -/
theorem marked_place {first second other : List α} (fresh : mark ∉ word)
    (notBefore : ¬mark :: word <:+: first) (notBehind : ¬mark :: word <:+: after)
    (stands : mark :: word <+: mark :: other)
    (same : first ++ mark :: after = second ++ mark :: other) : first = second ∧ after = other := by
  rcases List.append_eq_append_iff.mp same with ⟨part, longer, beyond⟩ | ⟨part, longer, beyond⟩
  · cases part with
    | nil => exact ⟨by simpa using longer.symm, (List.cons.inj beyond).2⟩
    | cons c part =>
        have inside : mark :: word <:+: after := by
          rw [(List.cons.inj beyond).2]
          exact stands.isInfix.trans List.infix_append_right
        exact absurd inside notBehind
  · cases part with
    | nil => exact ⟨by simpa using longer, (List.cons.inj beyond).2.symm⟩
    | cons c part =>
        rw [beyond] at stands
        have inside := (marked_start fresh (List.cons_ne_nil c part) stands).isInfix
        refine absurd ?_ notBefore
        rw [longer]
        exact inside.trans List.infix_append_right

theorem infix_of_concat {c : α} (nonempty : word ≠ []) (last : word.getLast? ≠ some c)
    (found : word <:+: before ++ [c]) : word <:+: before := by
  rcases List.infix_concat_iff.mp found with atEnd | inside
  · rcases List.suffix_concat_iff.mp atEnd with empty | ⟨front, split, _⟩
    · exact absurd empty nonempty
    · exact absurd (by simp [split]) last
  · exact inside

end Marked

end CLib
