import Hiview.Lib.Text

/-! Of `string_util.cpp`, the two translations between a text and the inside of a
JSON string and the erasing of a text in another. -/
namespace Hiview.StringUtil
open List hiding splitOn
open Numeral (ascii)
open Text

/-- What is pushed for one character of the value. -/
def escapeChar : UInt8 → List UInt8
  | 92 => [92, 92]
  | 34 => [92, 34]
  | 8 => [92, 98]
  | 12 => [92, 102]
  | 10 => [92, 110]
  | 13 => [92, 114]
  | 9 => [92, 116]
  | char => [char]

def escapeJsonStringValue (value : List UInt8) : List UInt8 := value.flatMap escapeChar

/-- What is pushed for a character behind a backslash. -/
def unescapedChar : UInt8 → UInt8
  | 98 => 8
  | 102 => 12
  | 110 => 10
  | 114 => 13
  | 116 => 9
  | char => char

/-- The loop of `UnescapeJsonStringValue` with its flag; a backslash at the end
is dropped. -/
def unescapeFrom : Bool → List UInt8 → List UInt8
  | _, [] => []
  | true, char :: rest => unescapedChar char :: unescapeFrom false rest
  | false, char :: rest =>
    if char = 92 then unescapeFrom true rest else char :: unescapeFrom false rest

def unescapeJsonStringValue (value : List UInt8) : List UInt8 := unescapeFrom false value

theorem unescapeFrom_escapeChar (char : UInt8) (rest : List UInt8) :
    unescapeFrom false (escapeChar char ++ rest) = char :: unescapeFrom false rest := by
  unfold escapeChar
  split
  all_goals try rfl
  rename_i other _ _ _ _ _ _
  rw [List.singleton_append, unescapeFrom, if_neg other]

theorem unescape_escape (value : List UInt8) :
    unescapeJsonStringValue (escapeJsonStringValue value) = value := by
  induction value with
  | nil => rfl
  | cons char rest ih =>
    rw [escapeJsonStringValue, List.flatMap_cons, unescapeJsonStringValue, unescapeFrom_escapeChar]
    exact congrArg (char :: ·) ih

/-- The loop of `EraseString`; the search goes on one character before the erased text. -/
def eraseLoop (toErase : List UInt8) : Nat → List UInt8 → Nat → Option (List UInt8)
  | 0, _, _ => none
  | rounds + 1, out, pos =>
    match find toErase (out.drop pos) with
    | none => some out
    | some (before, behind) => eraseLoop toErase rounds (out.take pos ++ before ++ behind) (pos + before.length - 1)

/-- `none` is a loop that has not ended within the rounds. -/
def eraseString (rounds : Nat) (input toErase : List UInt8) : Option (List UInt8) :=
  eraseLoop toErase rounds input 0

/-- What is asked of `EraseString`: an end, with nothing left of a text that is not empty. -/
def Erases (input toErase : List UInt8) : Prop :=
  ∃ rounds out, eraseString rounds input toErase = some out ∧
    if toErase = [] then out = input else ¬ toErase <:+: out

/-- Behind a beginning of its own, of two characters or more, the text is found sooner. -/
def FoundSooner (toErase : List UInt8) : Prop :=
  ∀ front back, toErase = front ++ back → back ≠ [] → 2 ≤ front.length →
    ∃ place < front.length, toErase <+: (front ++ toErase).drop place

variable {toErase out front back behind : List UInt8} {pos rounds : Nat}

/-- An occurrence that an erasure joins, from two characters or more before it, was there before. -/
theorem not_joined (sooner : FoundSooner toErase)
    (clear : ∀ place < front.length, ¬ toErase <+: (front ++ (toErase ++ behind)).drop place)
    (two : place + 2 ≤ front.length) : ¬ toErase <+: (front ++ behind).drop place := by
  intro here
  have split (text : List UInt8) : (front ++ text).drop place = front.drop place ++ text :=
    drop_append_of_le_length (by omega)
  rw [split] at here
  rcases Nat.lt_or_ge (front.drop place).length toErase.length with longer | fits
  · obtain ⟨back, shape⟩ := prefix_of_prefix_length_le (prefix_append _ _) here longer.le
    have filled : back ≠ [] := by
      rintro rfl
      rw [append_nil] at shape
      exact absurd (congrArg length shape) longer.ne
    obtain ⟨place', before, found⟩ := sooner _ back shape.symm filled (by rw [length_drop]; omega)
    rw [length_drop] at before
    refine clear (place + place') (by omega) ?_
    rw [← drop_drop, split, ← append_assoc, drop_append_of_le_length (by rw [length_append, length_drop]; omega)]
    exact found.trans (prefix_append _ _)
  · refine clear place (by omega) ?_
    rw [split]
    exact (prefix_of_prefix_length_le here (prefix_append _ _) fits).trans (prefix_append _ _)

theorem eraseLoop_ends (nonempty : toErase ≠ []) (enough : out.length < rounds) (inside : pos ≤ out.length)
    (clear : FoundSooner toErase → ∀ place < pos, ¬ toErase <+: out.drop place) :
    ∃ final, eraseLoop toErase rounds out pos = some final ∧ (FoundSooner toErase → ¬ toErase <:+: final) := by
  induction rounds generalizing out pos with
  | zero => cases enough
  | succ rounds ih =>
    have some := length_pos_iff.mpr nonempty
    rw [eraseLoop]
    rcases find_cases toErase (out.drop pos) with ⟨found, nowhere⟩ | ⟨before, behind, found, shape, first⟩
    · rw [found]
      refine ⟨out, rfl, fun sooner => ?_⟩
      rintro ⟨front, back, rfl⟩
      have here : toErase <+: (front ++ toErase ++ back).drop front.length := by
        rw [append_assoc, drop_left]
        exact prefix_append _ _
      by_cases early : front.length < pos
      · exact clear sooner _ early here
      · refine nowhere (front.length - pos) ?_
        rwa [drop_drop, Nat.add_sub_cancel' (Nat.not_lt.mp early)]
    · rw [found]
      have whole : out = out.take pos ++ before ++ (toErase ++ behind) := by
        rw [append_assoc, ← shape, take_append_drop]
      have front : (out.take pos ++ before).length = pos + before.length := by
        rw [length_append, length_take, Nat.min_eq_left inside]
      have size := congrArg length whole
      rw [length_append, front, length_append] at size
      refine ih (by rw [length_append, front]; omega) (by rw [length_append, front]; omega) fun sooner place early => ?_
      refine not_joined sooner (fun place early => ?_) (by rw [front]; omega)
      rw [← whole]
      by_cases old : place < pos
      · exact clear sooner place old
      · have new := first (place - pos) (by omega)
        rwa [drop_drop, Nat.add_sub_cancel' (Nat.not_lt.mp old)] at new

theorem eraseLoop_empty (rounds : Nat) (out : List UInt8) (pos : Nat) : eraseLoop [] rounds out pos = none := by
  induction rounds generalizing out pos with
  | zero => rfl
  | succ rounds ih =>
    rw [eraseLoop]
    cases found : find [] (out.drop pos) with
    | none => cases rest : out.drop pos <;> rw [rest] at found <;> cases found
    | some sides => exact ih _ _

/-- A beginning, the text and what the beginning lacks of it: the text is left, and not looked at again. -/
theorem eraseString_joined (shape : toErase = front ++ back) (two : 2 ≤ front.length)
    (first : ∀ place < front.length, ¬ toErase <+: (front ++ toErase).drop place)
    (ended : eraseString rounds (front ++ toErase ++ back) toErase = some out) : out = toErase := by
  have size : toErase.length = front.length + back.length := by rw [shape, length_append]
  have here : toErase <+: (front ++ toErase ++ back).drop front.length := by
    rw [append_assoc, drop_left]
    exact prefix_append _ _
  rcases find_cases toErase (front ++ toErase ++ back) with ⟨-, nowhere⟩ | ⟨before, behind, found, whole, least⟩
  · exact absurd here (nowhere _)
  · have same : before.length = front.length := by
      rcases Nat.lt_trichotomy before.length front.length with early | same | late
      · refine absurd ?_ (first _ early)
        have there : toErase <+: (front ++ toErase ++ back).drop before.length := by
          rw [whole, drop_left]
          exact prefix_append _ _
        rw [drop_append_of_le_length (by rw [length_append]; omega)] at there
        exact prefix_of_prefix_length_le there (prefix_append _ _) (by rw [length_drop, length_append]; omega)
      · exact same
      · exact absurd here (least _ late)
    rw [append_assoc] at whole
    obtain ⟨rfl, rest⟩ := append_inj whole same.symm
    obtain rfl := append_cancel_left rest
    have short : find toErase (toErase.drop (front.length - 1)) = none := by
      rcases find_cases toErase (toErase.drop (front.length - 1)) with ⟨none, -⟩ | ⟨before, behind, -, longer, -⟩
      · exact none
      · have lengths := congrArg length longer
        rw [length_drop, length_append, length_append] at lengths
        omega
    match rounds with
    | 0 => cases ended
    | 1 =>
      rw [eraseString, eraseLoop, drop_zero, found] at ended
      cases ended
    | rounds + 2 =>
      rw [eraseString, eraseLoop, drop_zero, found] at ended
      dsimp only at ended
      rw [take_zero, nil_append, ← shape, Nat.zero_add, eraseLoop, short] at ended
      exact (Option.some.inj ended).symm

end Hiview.StringUtil
