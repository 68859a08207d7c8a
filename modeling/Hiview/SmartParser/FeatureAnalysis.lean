import Hiview.Lib.Text

/-! The variables of the analysis rules. The value of a variable is put into a rule with the special
characters of regular expressions escaped, though most rules are not read as regular expressions. -/
namespace Hiview.SmartParser
open List Text
open Numeral (ascii)

structure FeatureRule where
  source : List UInt8
  depend : List UInt8 := []
  param : List (List UInt8 × List UInt8) := []

/-- A variable with its value, as `paramSeekRecord_` has them. -/
structure Record where
  name : List UInt8
  value : List UInt8

def maxRegexLength : Nat := 1024

def specialChars : List UInt8 := ascii "\\.^$*+?\x7b\x7d[]|()"

def escapeRegexChars (input : List UInt8) : List UInt8 :=
  input.flatMap fun char => if char ∈ specialChars then [92, char] else [char]

/-- Without empty parts and without trimming. -/
def splitStr (sep : List UInt8) : Nat → List UInt8 → List (List UInt8)
  | 0, _ => []
  | fuel + 1, strTmp =>
    match find sep strTmp with
    | none => [strTmp].filter (· ≠ [])
    | some (strPart, rest) => [strPart].filter (· ≠ []) ++ splitStr sep fuel rest

def isMatchAndExpression : List UInt8 → List (List UInt8) → Bool
  | _, [] => true
  | lineCpy, str :: rest =>
    match find str lineCpy with
    | none => false
    | some (_, behind) => isMatchAndExpression behind rest

def isRegular (source : List UInt8) : Bool := (ascii "@R@").isPrefixOf source

def isSourceMatch (regexSearch : List UInt8 → List UInt8 → Bool) (line cmdSrc : List UInt8) : Bool :=
  if isRegular cmdSrc then (cmdSrc.drop 3).length ≤ maxRegexLength && regexSearch line (cmdSrc.drop 3)
  else if contains cmdSrc (ascii "@|@") then (splitStr (ascii "@|@") (cmdSrc.length + 1) cmdSrc).any (contains line)
  else if contains cmdSrc (ascii "@&@") then
    isMatchAndExpression line (splitStr (ascii "@&@") (cmdSrc.length + 1) cmdSrc)
  else contains line cmdSrc

def checkVariable (rule : FeatureRule) : Bool :=
  (rule.source :: rule.depend :: rule.param.map Prod.snd).any fun text =>
    contains text (ascii "@\x7b") && contains text (ascii "\x7d@")

def Record.symbol (record : Record) : List UInt8 := ascii "@\x7b" ++ record.name ++ ascii "\x7d@"

def replaceVariable (src : List UInt8) (record : Record) : List UInt8 :=
  if maxRegexLength < record.value.length then src
  else
    match find record.symbol src with
    | none => src
    | some (before, behind) => before ++ escapeRegexChars record.value ++ behind

def FeatureRule.replaceVariable (rule : FeatureRule) (record : Record) : FeatureRule :=
  ⟨SmartParser.replaceVariable rule.source record, SmartParser.replaceVariable rule.depend record,
    rule.param.map fun (key, text) => (key, SmartParser.replaceVariable text record)⟩

/-- Whether no variable is left in the rule, and the rule. -/
def checkVariableParam (paramSeekRecord : List Record) (rule : FeatureRule) : Bool × FeatureRule :=
  if !checkVariable rule then (true, rule)
  else
    let replaced := paramSeekRecord.foldl FeatureRule.replaceVariable rule
    (!checkVariable replaced, replaced)

/-- A text with the characters marked that stand for themselves. -/
abbrev Marked := List (UInt8 × Bool)

namespace Marked

def chars (text : Marked) : List UInt8 := text.map Prod.fst

def ofSource (source : List UInt8) : Marked := source.map (·, false)

def ofValue (value : List UInt8) : Marked := value.map (·, true)

/-- The `SyntaxCharacter`s of ECMAScript. -/
def syntaxCharacters : List UInt8 := ascii "^$\\.*+?()[]\x7b\x7d|"

/-- A regular expression in which a backslash stands before each marked character that has a meaning of its own. -/
def quoted (text : Marked) : List UInt8 :=
  text.flatMap fun char => if char.2 ∧ char.1 ∈ syntaxCharacters then [92, char.1] else [char.1]

end Marked

/-- The regular expressions of the standard library: what a pattern finds in a line, and what it finds when
its marked characters stand for themselves, which a backslash makes them do. -/
structure Regex where
  search : List UInt8 → List UInt8 → Bool
  searchMarked : List UInt8 → Marked → Bool
  search_quoted : ∀ line text, search line text.quoted = searchMarked line text

section Literal
open Marked
variable (record : Record)

def standsFor : Nat → Marked → Marked
  | 0, text => text
  | fuel + 1, text =>
    match find record.symbol text.chars with
    | none => text
    | some (before, _) => text.take before.length ++ ofValue record.value ++
        standsFor fuel (text.drop (before.length + record.symbol.length))

/-- The value in every place of its variable. -/
def literal (text : Marked) (record : Record) : Marked := standsFor record (text.length + 1) text

/-- What the source finds in a line when the marked characters stand for themselves. -/
def literalMatch (regex : Regex) (line : List UInt8) (text : Marked) : Bool :=
  if isRegular text.chars then regex.searchMarked line (text.drop 3)
  else isSourceMatch regex.search line text.chars

/-- The variable stands once at most, and no backslash hides or makes a place of it. -/
def placed (text : Marked) : Bool :=
  record.value.length ≤ maxRegexLength &&
    match find record.symbol text.chars with
    | none => find record.symbol text.quoted = none
    | some (before, behind) => find record.symbol behind = none &&
        find record.symbol text.quoted = some (quoted (text.take before.length),
          quoted (text.drop (before.length + record.symbol.length)))

def allPlaced : List Record → Marked → Bool
  | [], _ => true
  | record :: rest, text => placed record text && allPlaced rest (literal text record)

/-- A regular expression is short enough when quoted, and nothing is quoted in another source. -/
def Faithful (text : Marked) : Prop :=
  if isRegular text.chars then (quoted (text.drop 3)).length ≤ maxRegexLength
  else ∀ char ∈ text, char.2 = true → char.1 ∉ syntaxCharacters

variable {record} {text : Marked}

theorem quoted_append (front back : Marked) : (front ++ back).quoted = front.quoted ++ back.quoted := flatMap_append

theorem quoted_ofSource (source : List UInt8) : (ofSource source).quoted = source := by
  induction source with
  | nil => rfl
  | cons char rest ih => exact congrArg (char :: ·) ih

theorem quoted_ofValue (value : List UInt8) : (ofValue value).quoted = escapeRegexChars value := by
  have same : syntaxCharacters.Perm specialChars := by decide +kernel
  induction value with
  | nil => rfl
  | cons char rest ih =>
    have here : (ofValue (char :: rest)).quoted =
        (if char ∈ syntaxCharacters then [92, char] else [char]) ++ (ofValue rest).quoted := by
      simp [quoted, ofValue]
    rw [here, ih]
    simp only [same.mem_iff]
    rfl

theorem standsFor_absent (absent : find record.symbol text.chars = none) (fuel : Nat) :
    standsFor record fuel text = text := by
  cases fuel <;> simp [standsFor, absent]

theorem replaceVariable_placed (placed : placed record text = true) :
    replaceVariable text.quoted record = (literal text record).quoted := by
  rw [SmartParser.placed, Bool.and_eq_true, decide_eq_true_eq] at placed
  obtain ⟨short, place⟩ := placed
  rw [replaceVariable, if_neg (Nat.not_lt.mpr short), literal, standsFor]
  rcases find_cases record.symbol text.chars with ⟨found, -⟩ | ⟨before, behind, found, shape, -⟩
  · rw [found] at place ⊢
    rw [of_decide_eq_true place]
  · rw [found] at place ⊢
    simp only [Bool.and_eq_true, decide_eq_true_eq] at place
    have rest : chars (text.drop (before.length + record.symbol.length)) = behind := by
      refine map_drop.trans ?_
      change text.chars.drop _ = behind
      rw [shape, ← append_assoc, ← length_append, drop_left]
    simp only [place.2]
    rw [standsFor_absent (rest.symm ▸ place.1), quoted_append, quoted_append, quoted_ofValue]

theorem foldl_placed (placed : allPlaced records text = true) (same : rule.source = text.quoted) :
    (records.foldl FeatureRule.replaceVariable rule).source = (records.foldl literal text).quoted := by
  induction records generalizing rule text with
  | nil => exact same
  | cons record rest ih =>
    obtain ⟨here, later⟩ := (Bool.and_eq_true _ _).mp placed
    refine ih later ?_
    rw [FeatureRule.replaceVariable, same]
    exact replaceVariable_placed here

theorem quoted_cons (char : UInt8 × Bool) (rest : Marked) :
    quoted (char :: rest) =
      (if char.2 ∧ char.1 ∈ syntaxCharacters then [92, char.1] else [char.1]) ++ rest.quoted := rfl

theorem quoted_eq_chars (plain : ∀ char ∈ text, char.2 = true → char.1 ∉ syntaxCharacters) :
    text.quoted = text.chars := by
  induction text with
  | nil => rfl
  | cons char rest ih =>
    obtain ⟨here, later⟩ := forall_mem_cons.mp plain
    rw [quoted_cons, if_neg (not_and.mpr here), ih later]
    rfl

/-- Every backslash makes the text longer. -/
theorem quoted_length (text : Marked) : text.chars.length ≤ text.quoted.length ∧
    (text.quoted.length ≤ text.chars.length → ∀ char ∈ text, char.2 = true → char.1 ∉ syntaxCharacters) := by
  induction text with
  | nil => exact ⟨Nat.le_refl 0, fun _ _ member => absurd member not_mem_nil⟩
  | cons char rest ih =>
    have shown : (chars (char :: rest)).length = (chars rest).length + 1 := rfl
    rw [quoted_cons, length_append, shown, forall_mem_cons]
    split
    · rw [length_cons, length_singleton]
      exact ⟨by omega, fun _ => by omega⟩
    · case isFalse plain =>
      rw [length_singleton]
      exact ⟨by omega, fun short => ⟨not_and.mp plain, ih.2 (by omega)⟩⟩

theorem isPrefixOf_quoted {part : List UInt8} (plain : ∀ char ∈ part, char ∉ syntaxCharacters) (text : Marked) :
    part.isPrefixOf text.quoted = part.isPrefixOf text.chars ∧
      (part.isPrefixOf text.chars = true → text.quoted.drop part.length = quoted (text.drop part.length)) := by
  induction part generalizing text with
  | nil => exact ⟨rfl, fun _ => rfl⟩
  | cons first part ih =>
    obtain ⟨here, later⟩ := forall_mem_cons.mp plain
    cases text with
    | nil => exact ⟨rfl, fun _ => rfl⟩
    | cons char rest =>
      have shown : chars (char :: rest) = char.1 :: chars rest := rfl
      rw [quoted_cons, shown]
      split
      · case isTrue special =>
        have slash : (first == 92) = false := beq_false_of_ne fun same => here (same ▸ by decide +kernel)
        have other : (first == char.1) = false := beq_false_of_ne fun same => here (same ▸ special.2)
        simp [isPrefixOf, slash, other]
      · obtain ⟨same, dropped⟩ := ih later rest
        simp only [singleton_append, isPrefixOf, same, length_cons, drop_succ_cons, Bool.and_eq_true, true_and]
        exact fun both => dropped both.2

theorem isRegular_quoted (text : Marked) : isRegular text.quoted = isRegular text.chars ∧
    (isRegular text.chars = true → text.quoted.drop 3 = quoted (text.drop 3)) :=
  isPrefixOf_quoted (by decide +kernel) text

theorem isSourceMatch_faithful (regex : Regex) (faithful : Faithful text) (line : List UInt8) :
    isSourceMatch regex.search line text.quoted = literalMatch regex line text := by
  obtain ⟨form, dropped⟩ := isRegular_quoted text
  rw [Faithful] at faithful
  rw [literalMatch]
  split at faithful
  · case isTrue regular =>
    rw [if_pos regular, isSourceMatch, form, if_pos regular, dropped regular, decide_eq_true faithful,
      Bool.true_and, regex.search_quoted]
  · case isFalse other => rw [if_neg other, quoted_eq_chars faithful]

/-- A source that is looked for as it is. -/
def isPlain (source : List UInt8) : Bool :=
  !isRegular source && !contains source (ascii "@|@") && !contains source (ascii "@&@")

theorem isSourceMatch_plain (plain : isPlain source = true) (search : List UInt8 → List UInt8 → Bool)
    (line : List UInt8) : isSourceMatch search line source = contains line source := by
  simp only [isPlain, Bool.and_eq_true, Bool.not_eq_true'] at plain
  rw [isSourceMatch, plain.1.1, plain.1.2, plain.2]
  rfl

end Literal

/-- No pattern finds anything. -/
def noRegex : Regex := ⟨fun _ _ => false, fun _ _ => false, fun _ _ => rfl⟩

/-- The line is a text, the first part, a text, the second part and so on, with a text at its end. -/
def Placed : List (List UInt8) → List UInt8 → Prop
  | [], _ => True
  | part :: rest, line => ∃ gap behind, line = gap ++ (part ++ behind) ∧ Placed rest behind

theorem Placed.append (placed : Placed parts line) (more : List UInt8) : Placed parts (more ++ line) := by
  cases parts with
  | nil => trivial
  | cons part rest =>
    obtain ⟨gap, behind, rfl, later⟩ := placed
    exact ⟨more ++ gap, behind, (append_assoc ..).symm, later⟩

/-- The first place of each part is as good as any other. -/
theorem isMatchAndExpression_iff (line : List UInt8) (srcSplit : List (List UInt8)) :
    isMatchAndExpression line srcSplit = true ↔ Placed srcSplit line := by
  induction srcSplit generalizing line with
  | nil => exact iff_of_true rfl trivial
  | cons part rest ih =>
    rw [isMatchAndExpression]
    rcases find_cases part line with ⟨found, nowhere⟩ | ⟨before, behind, found, shape, first⟩
    · rw [found]
      refine iff_of_false Bool.false_ne_true ?_
      rintro ⟨gap, behind, rfl, -⟩
      exact nowhere gap.length (by rw [drop_left]; exact prefix_append _ _)
    · rw [found]
      refine (ih behind).trans ⟨fun later => ⟨before, behind, shape, later⟩, ?_⟩
      rintro ⟨gap, rest, same, later⟩
      have sooner : before.length ≤ gap.length := by
        by_contra late
        refine first _ (Nat.lt_of_not_le late) ?_
        rw [same, drop_left]
        exact prefix_append _ _
      -- what follows a later place follows the first place too
      have more : rest <:+ behind := by
        have here : behind = line.drop (before.length + part.length) := by
          rw [shape, ← append_assoc, ← length_append, drop_left]
        have there : rest = line.drop (gap.length + part.length) := by
          rw [same, ← append_assoc, ← length_append, drop_left]
        rw [here, there]
        exact drop_suffix_drop_left _ (Nat.add_le_add_right sooner _)
      obtain ⟨more, rfl⟩ := more
      exact later.append more

end Hiview.SmartParser
