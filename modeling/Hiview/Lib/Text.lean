import Hiview.Lib.Numeral

/-! Finding text in text, splitting it at a separator and trimming blanks. -/
namespace Hiview.Text
open List

/-- The parts between separators, the empty ones included. -/
def splitOn (sep : UInt8) : List UInt8 → List (List UInt8)
  | [] => [[]]
  | char :: rest =>
    if char = sep then [] :: splitOn sep rest
    else match splitOn sep rest with
      | [] => [[char]]
      | part :: parts => (char :: part) :: parts

def trim (text : List UInt8) : List UInt8 :=
  ((text.dropWhile (· = 32)).reverse.dropWhile (· = 32)).reverse

/-- Whether `part` stands somewhere in the text. -/
def contains : List UInt8 → List UInt8 → Bool
  | [], part => part.isEmpty
  | char :: rest, part => part.isPrefixOf (char :: rest) || contains rest part

theorem contains_iff {text part : List UInt8} : contains text part = true ↔ part <:+: text := by
  induction text with
  | nil => rw [contains, List.isEmpty_iff, infix_nil]
  | cons char rest ih => rw [contains, Bool.or_eq_true, ih, isPrefixOf_iff_prefix, infix_cons_iff]

theorem contains_middle (before part after : List UInt8) : contains (before ++ part ++ after) part = true :=
  contains_iff.mpr ⟨before, after, rfl⟩

/-- The text before the first place where `part` stands, and the text behind it. -/
def find (part : List UInt8) : List UInt8 → Option (List UInt8 × List UInt8)
  | [] => if part = [] then some ([], []) else none
  | char :: rest =>
    if part.isPrefixOf (char :: rest) then some ([], (char :: rest).drop part.length)
    else (find part rest).map fun (before, behind) => (char :: before, behind)

/-- Nothing is found, or the first place at which the part stands. -/
theorem find_cases (part text : List UInt8) :
    (find part text = none ∧ ∀ pos, ¬ part <+: text.drop pos) ∨
      ∃ before behind, find part text = some (before, behind) ∧ text = before ++ (part ++ behind) ∧
        ∀ pos < before.length, ¬ part <+: text.drop pos := by
  induction text with
  | nil =>
    rw [find]
    by_cases empty : part = []
    · exact .inr ⟨[], [], if_pos empty, by rw [empty]; rfl, fun _ none => absurd none (Nat.not_lt_zero _)⟩
    · refine .inl ⟨if_neg empty, fun pos => ?_⟩
      rwa [drop_nil, prefix_nil]
  | cons char rest ih =>
    rw [find]
    by_cases here : part.isPrefixOf (char :: rest) = true
    · obtain ⟨behind, shape⟩ := isPrefixOf_iff_prefix.mp here
      refine .inr ⟨[], behind, ?_, shape.symm, fun _ none => absurd none (Nat.not_lt_zero _)⟩
      rw [if_pos here, ← shape, drop_left]
    · rw [if_neg here]
      have here := mt isPrefixOf_iff_prefix.mpr here
      rcases ih with ⟨found, nowhere⟩ | ⟨before, behind, found, shape, first⟩
      · refine .inl ⟨by rw [found]; rfl, fun pos => ?_⟩
        cases pos with
        | zero => exact here
        | succ pos => exact nowhere pos
      · refine .inr ⟨char :: before, behind, by rw [found]; rfl, by rw [shape]; rfl, fun pos sooner => ?_⟩
        cases pos with
        | zero => exact here
        | succ pos => exact first pos (Nat.lt_of_succ_lt_succ sooner)

variable {text : List UInt8} {char : UInt8}

theorem dropWhile_of_head (head : text.head? ≠ some char) : text.dropWhile (· = char) = text := by
  cases text with
  | nil => rfl
  | cons first rest =>
    have other : ¬ decide (first = char) = true := by
      rw [decide_eq_true_iff]
      exact fun same => head (congrArg some same)
    rw [dropWhile_cons, if_neg other]

theorem trim_of_ends (head : text.head? ≠ some 32) (last : text.getLast? ≠ some 32) : trim text = text := by
  have reversed : text.reverse.head? ≠ some 32 := by rwa [List.head?_reverse]
  rw [trim, dropWhile_of_head head, dropWhile_of_head reversed, reverse_reverse]

theorem trim_of_notMem (absent : 32 ∉ text) : trim text = text :=
  trim_of_ends (fun head => absent (mem_of_mem_head? head)) fun last => absent (mem_of_getLast? last)

variable {sep : UInt8} {part : List UInt8}

theorem splitOn_self (absent : sep ∉ part) : splitOn sep part = [part] := by
  induction part with
  | nil => rfl
  | cons char rest ih =>
    rw [mem_cons, not_or] at absent
    rw [splitOn, if_neg (fun same => absent.1 same.symm), ih absent.2]

theorem splitOn_append (absent : sep ∉ part) (rest : List UInt8) :
    splitOn sep (part ++ sep :: rest) = part :: splitOn sep rest := by
  induction part with
  | nil => rw [nil_append, splitOn, if_pos rfl]
  | cons char part ih =>
    rw [mem_cons, not_or] at absent
    rw [cons_append, splitOn, if_neg (fun same => absent.1 same.symm), ih absent.2]

/-- The part between two separators with what stands before it and behind it. -/
theorem mem_splitOn {text : List UInt8} (found : part ∈ splitOn sep text) :
    ∃ before behind, text = before ++ (part ++ behind) ∧ ∀ char ∈ behind.head?, char = sep := by
  by_cases more : sep ∈ text
  · obtain ⟨first, rest, rfl, absent⟩ := eq_append_cons_of_mem more
    rw [splitOn_append absent] at found
    rcases mem_cons.mp found with rfl | later
    · exact ⟨[], sep :: rest, rfl, fun char head => (Option.some.inj head).symm⟩
    · obtain ⟨before, behind, rfl, ends⟩ := mem_splitOn later
      refine ⟨first ++ sep :: before, behind, ?_, ends⟩
      rw [append_assoc, cons_append]
  · rw [splitOn_self more, mem_singleton] at found
    exact ⟨[], [], by rw [found, nil_append, append_nil], fun char head => by cases head⟩
termination_by text.length
decreasing_by simp_all; omega

theorem mem_of_mem_splitOn (found : part ∈ splitOn sep text) (member : char ∈ part) : char ∈ text := by
  obtain ⟨before, behind, rfl, -⟩ := mem_splitOn found
  exact mem_append_right _ (mem_append_left _ member)

theorem splitOn_joined (absent : ∀ part ∈ first :: rest, sep ∉ part) :
    splitOn sep (first ++ rest.flatMap (sep :: ·)) = first :: rest := by
  induction rest generalizing first with
  | nil => simpa using splitOn_self (absent first mem_cons_self)
  | cons second rest ih =>
    rw [flatMap_cons, cons_append, splitOn_append (absent first mem_cons_self),
      ih fun part member => absent part (mem_cons_of_mem _ member)]

theorem splitOn_ne_nil (sep : UInt8) (text : List UInt8) : splitOn sep text ≠ [] := by
  cases text with
  | nil => exact cons_ne_nil _ _
  | cons char rest =>
    rw [splitOn]
    split
    · exact cons_ne_nil _ _
    · split <;> exact cons_ne_nil _ _

theorem splitOn_append_sep (sep : UInt8) (front back : List UInt8) :
    splitOn sep (front ++ sep :: back) = splitOn sep front ++ splitOn sep back := by
  induction front with
  | nil => exact splitOn_append not_mem_nil back
  | cons char front ih =>
    rw [cons_append, splitOn, splitOn, ih]
    by_cases same : char = sep
    · rw [if_pos same, if_pos same, cons_append]
    · rw [if_neg same, if_neg same]
      obtain ⟨part, parts, shape⟩ := exists_cons_of_ne_nil (splitOn_ne_nil sep front)
      rw [shape]
      rfl

/-- Two texts joined by a separator are equal if their parts are, or if a part between two
separators belongs to the front of the one and to the back of the other. -/
theorem append_sep_eq_iff :
    first ++ sep :: last = front ++ sep :: back ↔
      (first = front ∧ last = back) ∨
        (∃ middle, first = front ++ sep :: middle ∧ back = middle ++ sep :: last) ∨
        ∃ middle, front = first ++ sep :: middle ∧ last = middle ++ sep :: back := by
  constructor
  · intro same
    rcases append_eq_append_iff.mp same with ⟨more, longer, rest⟩ | ⟨more, longer, rest⟩
    · cases more with
      | nil => exact .inl ⟨(longer.trans (append_nil _)).symm, tail_eq_of_cons_eq rest⟩
      | cons char more =>
        obtain ⟨rfl, tail⟩ := cons_eq_cons.mp rest
        exact .inr (.inr ⟨more, longer, tail⟩)
    · cases more with
      | nil => exact .inl ⟨longer.trans (append_nil _), (tail_eq_of_cons_eq rest).symm⟩
      | cons char more =>
        obtain ⟨rfl, tail⟩ := cons_eq_cons.mp rest
        exact .inr (.inl ⟨more, longer, tail⟩)
  · rintro (⟨rfl, rfl⟩ | ⟨middle, rfl, rfl⟩ | ⟨middle, rfl, rfl⟩)
    · rfl
    · rw [append_assoc, cons_append]
    · rw [append_assoc, cons_append]

theorem append_last_inj (plain : sep ∉ last) (clean : sep ∉ back) :
    first ++ sep :: last = front ++ sep :: back ↔ first = front ∧ last = back := by
  rw [append_sep_eq_iff]
  constructor
  · rintro (same | ⟨middle, -, rfl⟩ | ⟨middle, -, rfl⟩)
    · exact same
    · exact absurd (mem_append_right _ mem_cons_self) clean
    · exact absurd (mem_append_right _ mem_cons_self) plain
  · exact .inl

end Hiview.Text
