import Hiview.EventRaw.JsonEscape

/-! Number literals in an object. The statuses of a number take digits, one point
and behind the point an exponent with `+`; an exponent without a point and a
negative exponent leave them for the status outside of an object, so that the rest
of the object is lost. -/
namespace Hiview.EventRaw.JsonParser
open List

structure Digits where
  text : List UInt8
  nonempty : text ≠ []
  allDigits : text.all isNumChar = true

theorem Digits.each (digits : Digits) : ∀ char ∈ digits.text, isNumChar char = true :=
  all_eq_true.mp digits.allDigits

inductive Sign where
  | plus | minus
  deriving DecidableEq

def Sign.char : Sign → UInt8
  | plus => 43
  | minus => 45

/-- What a stream prints for an integer or a finite double. -/
structure NumberLiteral where
  negative : Bool
  whole : Digits
  fraction : Option Digits
  exponent : Option (Sign × Digits)

namespace NumberLiteral

section
variable (literal : NumberLiteral)

def integerText : List UInt8 :=
  if literal.negative then 45 :: literal.whole.text else literal.whole.text

def fractionText : List UInt8 :=
  match literal.fraction with
  | none => []
  | some digits => 46 :: digits.text

def mantissaText : List UInt8 :=
  literal.integerText ++ literal.fractionText

def exponentText : List UInt8 :=
  match literal.exponent with
  | none => []
  | some (sign, digits) => 101 :: sign.char :: digits.text

def text : List UInt8 :=
  literal.mantissaText ++ literal.exponentText

def zero : NumberLiteral := ⟨false, ⟨[48], List.cons_ne_nil _ _, rfl⟩, none, none⟩

/-- An exponent stands behind a point and is not negative. -/
def Readable : Prop :=
  ∀ sign digits, literal.exponent = some (sign, digits) → literal.fraction ≠ none ∧ sign = .plus

end

/-- The elements of an array up to its end. -/
def elements : NumberLiteral → List NumberLiteral → List UInt8
  | literal, [] => literal.text ++ [93]
  | literal, next :: rest => literal.text ++ 44 :: elements next rest

end NumberLiteral
open NumberLiteral (elements exponentText zero)

/-- Where a number can stand, with the statuses there. -/
inductive Place where
  | member | element

def Place.start : Place → JsonStatus
  | member => .valueParse
  | element => .arrayParse

def Place.number : Place → Bool → JsonStatus
  | member, false => .intParse
  | member, true => .doubleParse
  | element, false => .intItemParse
  | element, true => .doubleItemParse

section Reads
variable {toDouble : List UInt8 → UInt64 → UInt64}
variable {place : Place} {point : Bool} {lastValue : JsonStatus} {key held : List UInt8}
  {values : List (List UInt8)} {builder : RawDataBuilder}

variable {char : UInt8}

theorem reads_char {status lastStatus : JsonStatus} (moved : statusTabs status char = place.number point) :
    Reads toDouble ⟨status, lastStatus, lastValue, key, held, values, builder⟩ [char]
      (within (place.number point) key (held ++ [char]) values builder) := by
  refine ⟨?_, ?_⟩
  · rw [feed_cons, feed_nil]
    simp [step, moved]
    cases place <;> cases point <;> rfl
  · rw [calls, calls, stepCalls, append_nil]
    simp [moved]
    cases place <;> cases point <;> rfl

theorem start_moves (first : isNumChar char = true ∨ char = 45) : statusTabs place.start char = place.number false := by
  obtain ⟨quote, dot, opening, closing⟩ := not_special first
  have starts : (isNumChar char || decide (char = 45)) = true := by
    rw [Bool.or_eq_true, decide_eq_true_eq]
    exact first
  cases place with
  | member => simp [Place.start, statusTabs, quote, dot, opening, starts, Place.number]
  | element => simp [Place.start, statusTabs, quote, dot, closing, starts, Place.number]

theorem digit_stays (digit : isNumChar char = true) : statusTabs (place.number point) char = place.number point := by
  cases place <;> cases point <;>
    simp [Place.number, statusTabs, digit]

theorem point_moves : statusTabs (place.number false) 46 = place.number true := by
  cases place <;> rfl

theorem exponent_stays : statusTabs (place.number true) 101 = place.number true := by
  cases place <;> rfl

theorem plus_stays : statusTabs (place.number true) 43 = place.number true := by
  cases place <;> rfl

theorem exponent_leaves : statusTabs (place.number false) 101 = .none := by
  cases place <;> rfl

theorem minus_leaves : statusTabs (place.number true) 45 = .none := by
  cases place <;> rfl

theorem reads_digits {text : List UInt8} (digits : ∀ char ∈ text, isNumChar char = true) :
    Reads toDouble (within (place.number point) key held values builder) text
      (within (place.number point) key (held ++ text) values builder) := by
  induction text generalizing held with
  | nil => exact ⟨by rw [feed_nil, append_nil], rfl⟩
  | cons char rest ih =>
    rw [forall_mem_cons] at digits
    have later := @ih (held ++ [char]) digits.2
    rw [append_assoc, singleton_append] at later
    exact (reads_char (digit_stays digits.1)).cons later

theorem reads_integer (literal : NumberLiteral) :
    Reads toDouble ⟨place.start, place.start, lastValue, key, [], values, builder⟩
      literal.integerText (within (place.number false) key literal.integerText values builder) := by
  have starting {char : UInt8} {rest : List UInt8} (first : isNumChar char = true ∨ char = 45)
      (digits : ∀ char ∈ rest, isNumChar char = true) :
      Reads toDouble ⟨place.start, place.start, lastValue, key, [], values, builder⟩
        (char :: rest) (within (place.number false) key (char :: rest) values builder) :=
    (reads_char (start_moves first)).cons (reads_digits digits)
  obtain ⟨negative, whole, fraction, exponent⟩ := literal
  cases negative with
  | true => exact starting (.inr rfl) whole.each
  | false =>
    obtain ⟨char, rest, spelled⟩ := exists_cons_of_ne_nil whole.nonempty
    have digits := whole.each
    rw [spelled, forall_mem_cons] at digits
    simp [NumberLiteral.integerText, spelled]
    exact starting (.inl digits.1) digits.2

theorem reads_fraction (literal : NumberLiteral) :
    Reads toDouble (within (place.number false) key held values builder) literal.fractionText
      (within (place.number literal.fraction.isSome) key (held ++ literal.fractionText) values builder) := by
  obtain ⟨negative, whole, fraction, exponent⟩ := literal
  cases fraction with
  | none => exact ⟨congrArg (within _ key · values builder) (append_nil held).symm, rfl⟩
  | some digits =>
    have later := @reads_digits toDouble place true key (held ++ [46]) values builder _ digits.each
    rw [append_assoc] at later
    exact (reads_char point_moves).cons later

theorem reads_mantissa (literal : NumberLiteral) :
    Reads toDouble ⟨place.start, place.start, lastValue, key, [], values, builder⟩
      literal.mantissaText
      (within (place.number literal.fraction.isSome) key literal.mantissaText values builder) :=
  (reads_integer literal).append (reads_fraction literal)

theorem reads_exponent (each : ∀ char ∈ digits, isNumChar char = true) :
    Reads toDouble (within (place.number true) key held values builder) (101 :: 43 :: digits)
      (within (place.number true) key (held ++ 101 :: 43 :: digits) values builder) := by
  have later := @reads_digits toDouble place true key ((held ++ [101]) ++ [43]) values builder _ each
  have joined : ((held ++ [101]) ++ [43]) ++ digits = held ++ 101 :: 43 :: digits := by
    rw [append_assoc, append_assoc, singleton_append, singleton_append]
  rw [joined] at later
  exact (reads_char exponent_stays).cons ((reads_char plus_stays).cons later)

variable {literal : NumberLiteral}

theorem reads_literal (readable : literal.Readable) :
    Reads toDouble ⟨place.start, place.start, lastValue, key, [], values, builder⟩ literal.text
      (within (place.number literal.fraction.isSome) key literal.text values builder) := by
  rw [NumberLiteral.text]
  refine (reads_mantissa literal).append ?_
  rw [exponentText]
  cases scaled : literal.exponent with
  | none => exact ⟨congrArg (within _ key · values builder) (append_nil _).symm, rfl⟩
  | some exponent =>
    obtain ⟨sign, digits⟩ := exponent
    obtain ⟨pointed, rfl⟩ := readable sign digits scaled
    rw [Option.isSome_iff_ne_none.mpr pointed]
    exact reads_exponent digits.each

theorem brace_notMem (literal : NumberLiteral) : 123 ∉ literal.text := by
  have other {text : List UInt8} (digits : ∀ char ∈ text, isNumChar char = true) : 123 ∉ text :=
    fun member => absurd (digits 123 member) (by decide)
  obtain ⟨negative, whole, fraction, exponent⟩ := literal
  rw [NumberLiteral.text, NumberLiteral.mantissaText, mem_append, mem_append, not_or, not_or]
  refine ⟨⟨?_, ?_⟩, ?_⟩
  · cases negative with
    | true => exact not_mem_cons_of_ne_of_not_mem (by decide) (other whole.each)
    | false => exact other whole.each
  · cases fraction with
    | none => exact not_mem_nil
    | some digits => exact not_mem_cons_of_ne_of_not_mem (by decide) (other digits.each)
  · cases exponent with
    | none => exact not_mem_nil
    | some exponent =>
      refine not_mem_cons_of_ne_of_not_mem (by decide)
        (not_mem_cons_of_ne_of_not_mem ?_ (other exponent.2.each))
      cases exponent.1 <;> decide

theorem feed_outside {text : List UInt8} (closed : 123 ∉ text) :
    ∃ appended, feed toDouble ⟨.none, .none, lastValue, key, held, values, builder⟩ text =
      ⟨.none, .none, lastValue, key, held, values, appended⟩ := by
  induction text generalizing builder with
  | nil => exact ⟨builder, rfl⟩
  | cons char rest ih =>
    rw [mem_cons, not_or] at closed
    have stays : statusTabs .none char = .none := if_neg (Ne.symm closed.1)
    rw [feed_cons]
    simp [step, stays, handle, handleStatusNone]
    exact ih closed.2

theorem feed_leaves {rest : List UInt8} (left : statusTabs (place.number point) char = .none) (closed : 123 ∉ rest) :
    ∃ appended, feed toDouble (within (place.number point) key held values builder) (char :: rest) =
      ⟨.none, .none, place.number point, key, held, values, appended⟩ := by
  rw [feed_cons]
  simp [step, within, left, handle, handleStatusNone]
  exact feed_outside closed

/-- Any other literal is cut off, and nothing of the object is read behind it. -/
theorem feed_unreadable (unreadable : ¬ literal.Readable) :
    ∃ status held appended, held.length < literal.text.length ∧
      feed toDouble ⟨place.start, place.start, lastValue, key, [], values, builder⟩ literal.text =
        ⟨.none, .none, status, key, held, values, appended⟩ := by
  have collected := (@reads_mantissa toDouble place lastValue key values builder literal).fed
  have braces := brace_notMem literal
  simp only [NumberLiteral.Readable, not_forall] at unreadable
  obtain ⟨sign, digits, scaled, failing⟩ := unreadable
  have spelled : literal.text = literal.mantissaText ++ 101 :: sign.char :: digits.text := by
    rw [NumberLiteral.text, exponentText, scaled]
  rw [spelled] at braces ⊢
  simp only [mem_append, mem_cons, not_or] at braces
  obtain ⟨-, -, signed, closed⟩ := braces
  generalize literal.mantissaText = mantissa at collected ⊢
  rw [feed_append, collected]
  by_cases pointed : literal.fraction = none
  · rw [pointed, Option.isSome_none]
    obtain ⟨appended, left⟩ := @feed_leaves toDouble place false key mantissa values builder _ _
      exponent_leaves (not_mem_cons_of_ne_of_not_mem signed closed)
    exact ⟨_, mantissa, appended, by simp, left⟩
  · obtain rfl : sign = .minus := by
      cases sign with
      | minus => rfl
      | plus => exact absurd ⟨pointed, rfl⟩ failing
    rw [Option.isSome_iff_ne_none.mpr pointed, ← singleton_append, feed_append,
      within, (reads_char exponent_stays).fed]
    obtain ⟨appended, left⟩ := @feed_leaves toDouble place true key (mantissa ++ [101]) values builder
      _ _ minus_leaves closed
    exact ⟨_, mantissa ++ [101], appended, by simp, left⟩

theorem reads_comma :
    Reads toDouble (within (Place.element.number point) key held values builder) [44]
      ⟨.arrayParse, .arrayParse, Place.element.number point, key, [], values ++ [held], builder⟩ := by
  cases point <;> exact ⟨rfl, rfl⟩

theorem reads_bracket :
    Reads toDouble (within (Place.element.number point) key held values builder) [93]
      ⟨.run, .run, Place.element.number point, key, [], values ++ [held], builder⟩ := by
  cases point <;> exact ⟨rfl, rfl⟩

theorem point_mem (pointed : literal.fraction.isSome = true) : 46 ∈ literal.text := by
  obtain ⟨negative, whole, fraction, exponent⟩ := literal
  cases fraction with
  | none => cases pointed
  | some digits =>
    exact mem_append_left _ (mem_append_right _ mem_cons_self)

theorem reads_elements {others : List NumberLiteral} (readable : ∀ item ∈ literal :: others, item.Readable) :
    ∃ point, (point = true → ∃ item ∈ literal :: others, 46 ∈ item.text) ∧
      Reads toDouble ⟨.arrayParse, .arrayParse, lastValue, key, [], values, builder⟩
        (literal.elements others) ⟨.run, .run, Place.element.number point, key, [],
          values ++ (literal :: others).map NumberLiteral.text, builder⟩ := by
  induction others generalizing literal lastValue values with
  | nil =>
    refine ⟨literal.fraction.isSome, fun pointed => ⟨literal, mem_cons_self, point_mem pointed⟩, ?_⟩
    exact (@reads_literal toDouble .element _ _ _ _ _ (readable literal mem_cons_self)).append
      reads_bracket
  | cons next rest ih =>
    rw [forall_mem_cons] at readable
    obtain ⟨point, pointed, later⟩ :=
      @ih (Place.element.number literal.fraction.isSome) (values ++ [literal.text]) next readable.2
    rw [append_assoc, singleton_append] at later
    refine ⟨point, fun holds => ?_, ?_⟩
    · obtain ⟨item, member, inside⟩ := pointed holds
      exact ⟨item, mem_cons_of_mem _ member, inside⟩
    · exact (@reads_literal toDouble .element _ _ _ _ _ readable.1).append (reads_comma.cons later)

theorem elements_brace (literal : NumberLiteral) (others : List NumberLiteral) :
    123 ∉ literal.elements others := by
  induction others generalizing literal with
  | nil =>
    rw [elements, mem_append, not_or]
    exact ⟨brace_notMem literal, by decide⟩
  | cons next rest ih =>
    rw [elements, mem_append, not_or]
    exact ⟨brace_notMem literal, not_mem_cons_of_ne_of_not_mem (by decide) (ih next)⟩

theorem feed_element_unreadable (unreadable : ¬ literal.Readable) (closed : 123 ∉ rest) :
    (feed toDouble ⟨.arrayParse, .arrayParse, lastValue, key, [], values, builder⟩
      (literal.text ++ rest)).values = values := by
  obtain ⟨status, held, appended, -, left⟩ :=
    @feed_unreadable toDouble .element lastValue key values builder literal unreadable
  obtain ⟨final, outside⟩ := @feed_outside toDouble status key held values appended rest closed
  rw [feed_append]
  exact congrArg JsonParser.values ((congrArg (feed toDouble · rest) left).trans outside)

theorem feed_elements_unreadable {others : List NumberLiteral}
    (unreadable : ∃ item ∈ literal :: others, ¬ item.Readable) :
    (feed toDouble ⟨.arrayParse, .arrayParse, lastValue, key, [], values, builder⟩
      (literal.elements others)).values.length < values.length + (literal :: others).length := by
  induction others generalizing literal lastValue values with
  | nil =>
    obtain ⟨item, member, broken⟩ := unreadable
    obtain rfl := mem_singleton.mp member
    rw [elements, feed_element_unreadable broken (by decide)]
    exact Nat.lt_succ_self _
  | cons next rest ih =>
    rw [elements]
    by_cases first : literal.Readable
    · have later : ∃ item ∈ next :: rest, ¬ item.Readable := by
        obtain ⟨item, member, broken⟩ := unreadable
        rcases mem_cons.mp member with rfl | member
        · exact absurd first broken
        · exact ⟨item, member, broken⟩
      have fewer := @ih (Place.element.number literal.fraction.isSome) (values ++ [literal.text]) next later
      have moved := ((@reads_literal toDouble .element lastValue key values builder _ first).append
        reads_comma).fed
      rw [← singleton_append, ← append_assoc, feed_append]
      refine (congrArg (fun parser => (feed toDouble parser _).values.length) moved).trans_lt
        (fewer.trans_eq ?_)
      simp
      omega
    · rw [feed_element_unreadable first
        (not_mem_cons_of_ne_of_not_mem (by decide) (elements_brace next rest))]
      exact Nat.lt_add_of_pos_right (Nat.succ_pos _)

end Reads

section Awaiting
variable {toDouble : List UInt8 → UInt64 → UInt64}

theorem arrayParse_from {status : JsonStatus} (next : statusTabs status char = .arrayParse) :
    Awaits status ∨ status = .stringItemParse ∨ status = .doubleItemParse ∨ status = .intItemParse := by
  cases status with
  | valueParse => exact .inl (.inl rfl)
  | arrayParse => exact .inl (.inr rfl)
  | stringItemParse => exact .inr (.inl rfl)
  | doubleItemParse => exact .inr (.inr (.inl rfl))
  | intItemParse => exact .inr (.inr (.inr rfl))
  | _ =>
    simp only [statusTabs] at next
    repeat' split at next
    all_goals cases next

/-- Nothing has been collected where a value or an item is awaited. -/
structure Emptied (parser : JsonParser) : Prop where
  settled : parser.lastStatus = parser.status
  value : Awaits parser.status → parser.value = []

theorem Emptied.step (emptied : Emptied parser) (char : UInt8) :
    Emptied (JsonParser.step toDouble parser char) := by
  refine ⟨rfl, fun awaits => ?_⟩
  have moved := @step_lastStatus toDouble parser char
  obtain ⟨status, lastStatus, lastValue, key, value, values, builder⟩ := parser
  obtain rfl : lastStatus = status := emptied.settled
  rcases awaits with next | next
  · simp [JsonParser.step, moved.symm.trans next, handle, handleStatusValueParse, clearValues, takeItem]
    repeat' split
    all_goals rfl
  have opened := moved.symm.trans next
  simp [JsonParser.step, opened, handle, handleStatusArrayParse]
  rcases arrayParse_from opened with awaited | rfl | rfl | rfl
  · obtain rfl : value = [] := emptied.value awaited
    simp [clearValues, takeItem]
    repeat' split
    all_goals rfl
  all_goals rfl

theorem feed_emptied (text : List UInt8) : Emptied (feed toDouble new text) := by
  have kept {parser : JsonParser} (emptied : Emptied parser) :
      Emptied (feed toDouble parser text) := by
    induction text generalizing parser with
    | nil => exact emptied
    | cons char rest ih => exact ih (emptied.step char)
  refine kept ⟨rfl, ?_⟩
  rintro (same | same) <;> cases same

theorem reaches {front : List UInt8} {place : Place}
    (placed : (feed toDouble new front).status = place.start) :
    ∃ lastValue builder, feed toDouble new front = ⟨place.start, place.start, lastValue,
      (feed toDouble new front).key, [], (feed toDouble new front).values, builder⟩ := by
  obtain ⟨settled, emptied⟩ := @feed_emptied toDouble front
  generalize feed toDouble new front = parser at placed settled emptied ⊢
  obtain ⟨status, lastStatus, lastValue, key, value, values, builder⟩ := parser
  obtain rfl : status = place.start := placed
  obtain rfl : lastStatus = place.start := settled
  obtain rfl : value = [] := emptied (by cases place with
    | member => exact .inl rfl
    | element => exact .inr rfl)
  exact ⟨lastValue, builder, rfl⟩

end Awaiting

section Placed
variable (toDouble : List UInt8 → UInt64 → UInt64)

/-- What is appended for a number, as it has a point or not. -/
def NumberLiteral.argument (literal : NumberLiteral) : Argument :=
  if literal.fraction.isSome then .floatingNum (.double (toDouble literal.text 0))
  else intArgument literal.text

/-- Nothing is appended under the empty name. -/
def memberCall (key : List UInt8) (argument : Argument) : List (List UInt8 × Argument) :=
  if key = [] then [] else [(key, argument)]

/-- The literal behind `front` is collected whole and appended for its member, and the
members behind it are those behind a zero. -/
def MemberRead (front : List UInt8) (literal : NumberLiteral) (tail : List UInt8) : Prop :=
  (feed toDouble new (front ++ literal.text)).value = literal.text ∧
    ∃ after,
      calls toDouble new (front ++ (literal.text ++ tail)) = calls toDouble new front ++
        (memberCall (feed toDouble new front).key (literal.argument toDouble) ++ after) ∧
      calls toDouble new (front ++ (zero.text ++ tail)) =
        calls toDouble new front ++
          (memberCall (feed toDouble new front).key (zero.argument toDouble) ++
            after)

/-- The same of an element and the elements to the end of its array; `front` ends inside
of the array. -/
def ElementRead (front : List UInt8) (literal : NumberLiteral) (others : List NumberLiteral)
    (tail : List UInt8) : Prop :=
  (feed toDouble new (front ++ literal.elements others)).values =
      (feed toDouble new front).values ++ (literal :: others).map NumberLiteral.text ∧
    ∃ after,
      calls toDouble new (front ++ (literal.elements others ++ tail)) =
        calls toDouble new front ++ (memberCall (feed toDouble new front).key
          (intArrayArgument toDouble ((feed toDouble new front).values ++
            (literal :: others).map NumberLiteral.text)) ++ after) ∧
      calls toDouble new (front ++ (zero.elements others ++ tail)) =
        calls toDouble new front ++ (memberCall (feed toDouble new front).key
          (intArrayArgument toDouble ((feed toDouble new front).values ++
            (zero :: others).map NumberLiteral.text)) ++ after)

variable {toDouble} {front tail key : List UInt8} {values : List (List UInt8)}
  {builder : RawDataBuilder}

theorem text_ne_nil (literal : NumberLiteral) : literal.text ≠ [] := by
  obtain ⟨negative, whole, fraction, exponent⟩ := literal
  refine append_ne_nil_of_left_ne_nil (append_ne_nil_of_left_ne_nil ?_ _) _
  cases negative with
  | true => exact cons_ne_nil _ _
  | false => exact whole.nonempty

theorem pending_member (literal : NumberLiteral) :
    pendingCall toDouble ⟨.run, .run, Place.member.number literal.fraction.isSome, key,
      literal.text, values, builder⟩ = memberCall key (literal.argument toDouble) := by
  have collected := text_ne_nil literal
  rw [pendingCall, memberCall, NumberLiteral.argument]
  cases literal.fraction.isSome with
  | false => simp [Place.number, collected]
  | true => rfl

theorem pending_elements (pointed : point = true → ∃ item ∈ values, 46 ∈ item) :
    pendingCall toDouble ⟨.run, .run, Place.element.number point, key, [], values, builder⟩ =
      memberCall key (intArrayArgument toDouble values) := by
  cases point with
  | false => rfl
  | true =>
    obtain ⟨item, member, inside⟩ := pointed rfl
    have floating : values.any (46 ∈ ·) = true :=
      any_eq_true.mpr ⟨item, member, decide_eq_true inside⟩
    rw [intArrayArgument, if_pos floating]
    rfl

theorem Following.calls_number (following : Following tail) (literal : NumberLiteral) :
    JsonParser.calls toDouble
        (within (Place.member.number literal.fraction.isSome) key literal.text values builder) tail =
      JsonParser.calls toDouble ⟨.run, .run, Place.member.number literal.fraction.isSome, key, literal.text,
        values, builder⟩ tail := by
  cases following <;> cases literal.fraction.isSome <;> rfl

theorem number_ne_texts (place : Place) (point : Bool) : place.number point ≠ .stringItemParse := by
  cases place <;> cases point <;> decide

theorem calls_memberRead (placed : (feed toDouble new front).status = .valueParse)
    (following : Following tail) :
    ∃ after, ∀ literal : NumberLiteral, literal.Readable →
      calls toDouble new (front ++ (literal.text ++ tail)) = calls toDouble new front ++
        (memberCall (feed toDouble new front).key (literal.argument toDouble) ++ after) := by
  obtain ⟨lastValue, builder, reached⟩ := @reaches toDouble front .member placed
  generalize (feed toDouble new front).key = key at reached ⊢
  obtain ⟨after, pending⟩ := @Following.calls_pending toDouble tail following key
  refine ⟨after, fun literal readable => ?_⟩
  rw [calls_append, reached, (reads_literal readable).calls_append, following.calls_number,
    pending _ _ _ _ (number_ne_texts _ _), pending_member]

theorem calls_elementRead (placed : (feed toDouble new front).status = .arrayParse)
    (following : Following tail) :
    ∃ after, ∀ (literal : NumberLiteral) (others : List NumberLiteral),
      (∀ item ∈ literal :: others, item.Readable) →
      calls toDouble new (front ++ (literal.elements others ++ tail)) =
        calls toDouble new front ++ (memberCall (feed toDouble new front).key
          (intArrayArgument toDouble ((feed toDouble new front).values ++
            (literal :: others).map NumberLiteral.text)) ++ after) := by
  obtain ⟨lastValue, builder, reached⟩ := @reaches toDouble front .element placed
  generalize (feed toDouble new front).key = key at reached ⊢
  generalize (feed toDouble new front).values = values at reached ⊢
  obtain ⟨after, pending⟩ := @Following.calls_pending toDouble tail following key
  refine ⟨after, fun literal others readable => ?_⟩
  obtain ⟨point, pointed, read⟩ :=
    @reads_elements toDouble lastValue key values builder literal others readable
  have among (holds : point = true) :
      ∃ item ∈ values ++ (literal :: others).map NumberLiteral.text, 46 ∈ item := by
    obtain ⟨item, member, inside⟩ := pointed holds
    exact ⟨item.text, mem_append_right _ (mem_map_of_mem member), inside⟩
  rw [calls_append, reached]
  refine congrArg (calls toDouble new front ++ ·) ?_
  rw [← pending_elements among, ← pending _ _ _ builder (number_ne_texts _ _)]
  exact read.calls_append tail

theorem readable_zero : zero.Readable := by
  intro sign digits same
  cases same

theorem memberRead_iff (placed : (feed toDouble new front).status = .valueParse)
    (following : Following tail) (literal : NumberLiteral) :
    MemberRead toDouble front literal tail ↔ literal.Readable := by
  obtain ⟨lastValue, builder, reached⟩ := @reaches toDouble front .member placed
  constructor
  · rintro ⟨whole, -⟩
    by_contra unreadable
    obtain ⟨status, held, appended, shorter, cut⟩ := @feed_unreadable toDouble .member lastValue
      (feed toDouble new front).key (feed toDouble new front).values builder literal unreadable
    rw [feed_append, reached, cut] at whole
    exact shorter.ne (congrArg List.length whole)
  · intro readable
    obtain ⟨after, appended⟩ := calls_memberRead placed following
    refine ⟨?_, after, appended literal readable, appended .zero readable_zero⟩
    rw [feed_append, reached, (reads_literal readable).fed]
    rfl

theorem elementRead_iff (placed : (feed toDouble new front).status = .arrayParse)
    (following : Following tail) (literal : NumberLiteral) (others : List NumberLiteral) :
    ElementRead toDouble front literal others tail ↔
      ∀ item ∈ literal :: others, item.Readable := by
  obtain ⟨lastValue, builder, reached⟩ := @reaches toDouble front .element placed
  constructor
  · rintro ⟨whole, -⟩
    by_contra unreadable
    push Not at unreadable
    have fewer := @feed_elements_unreadable toDouble lastValue (feed toDouble new front).key
      (feed toDouble new front).values builder literal others unreadable
    have same := congrArg List.length whole
    rw [feed_append, reached, length_append, length_map] at same
    exact fewer.ne same
  · intro readable
    obtain ⟨after, appended⟩ := calls_elementRead placed following
    have others_readable := (forall_mem_cons.mp readable).2
    refine ⟨?_, after, appended literal others readable, appended .zero others ?_⟩
    · obtain ⟨point, -, read⟩ := @reads_elements toDouble lastValue
        (feed toDouble new front).key (feed toDouble new front).values builder literal others
        readable
      rw [feed_append, reached]
      exact congrArg JsonParser.values read.fed
    · exact forall_mem_cons.mpr ⟨readable_zero, others_readable⟩

/-- A number is collected whole, and the members behind it are read as behind a zero,
exactly if an exponent stands behind a point and is not negative. -/
theorem number_read_iff (front : List UInt8) (literal : NumberLiteral) (following : Following tail) :
    ((feed toDouble new front).status = .valueParse →
      (MemberRead toDouble front literal tail ↔ literal.Readable)) ∧
    ((feed toDouble new front).status = .arrayParse → ∀ others,
      (ElementRead toDouble front literal others tail ↔
        ∀ item ∈ literal :: others, item.Readable)) :=
  ⟨fun placed => memberRead_iff placed following literal,
    fun placed others => elementRead_iff placed following literal others⟩

end Placed

section Literals

def pointedLiteral : NumberLiteral :=
  ⟨true, ⟨[49], List.cons_ne_nil _ _, rfl⟩, some ⟨[53], List.cons_ne_nil _ _, rfl⟩,
    some (.plus, ⟨[50, 48], List.cons_ne_nil _ _, rfl⟩)⟩

def largeLiteral : NumberLiteral :=
  ⟨false, ⟨[49], List.cons_ne_nil _ _, rfl⟩, none, some (.plus, ⟨[50, 48], List.cons_ne_nil _ _, rfl⟩)⟩

def smallLiteral : NumberLiteral :=
  ⟨false, ⟨[49], List.cons_ne_nil _ _, rfl⟩, some ⟨[53], List.cons_ne_nil _ _, rfl⟩,
    some (.minus, ⟨[48, 53], List.cons_ne_nil _ _, rfl⟩)⟩

theorem pointedLiteral_readable : pointedLiteral.Readable := by
  rintro sign digits ⟨⟩
  exact ⟨by rintro ⟨⟩, rfl⟩

theorem following_member : Following [44, 34, 76, 34, 58, 49, 125] :=
  @Following.member [76] (by decide) [49, 125]

/-- In an object with the two members `K` and `L`. -/
theorem number_read_pointed :
    MemberRead (fun _ val => val) [123, 34, 75, 34, 58] pointedLiteral [44, 34, 76, 34, 58, 49, 125] ∧
      ElementRead (fun _ val => val) [123, 34, 75, 34, 58, 91, 50, 44] pointedLiteral [.zero]
        [44, 34, 76, 34, 58, 49, 125] := by
  refine ⟨?_, ?_⟩
  · exact ((number_read_iff _ pointedLiteral following_member).1 rfl).mpr pointedLiteral_readable
  · refine ((number_read_iff _ pointedLiteral following_member).2 rfl [.zero]).mpr ?_
    rw [forall_mem_cons, forall_mem_singleton]
    exact ⟨pointedLiteral_readable, readable_zero⟩

/-- An exponent without a point and a negative exponent end the object: the first member
is appended cut off at each character behind, the second member is lost. -/
theorem number_exponent_lost :
    Following [44, 34, 76, 34, 58, 49, 125] ∧
      (feed (fun _ val => val) new [123, 34, 75, 34, 58]).status = .valueParse ∧
      calls (fun _ val => val) new
          ([123, 34, 75, 34, 58] ++ (zero.text ++ [44, 34, 76, 34, 58, 49, 125])) =
        [([75], .unsignedNum (.uint64 0)), ([76], .unsignedNum (.uint64 1))] ∧
      (feed (fun _ val => val) new ([123, 34, 75, 34, 58] ++ largeLiteral.text)).value = [49] ∧
      calls (fun _ val => val) new
          ([123, 34, 75, 34, 58] ++ (largeLiteral.text ++ [44, 34, 76, 34, 58, 49, 125])) =
        List.replicate 11 ([75], .unsignedNum (.uint64 1)) ∧
      (feed (fun _ val => val) new ([123, 34, 75, 34, 58] ++ smallLiteral.text)).value =
        [49, 46, 53, 101] ∧
      ¬ MemberRead (fun _ val => val) [123, 34, 75, 34, 58] largeLiteral
        [44, 34, 76, 34, 58, 49, 125] ∧
      ¬ MemberRead (fun _ val => val) [123, 34, 75, 34, 58] smallLiteral
        [44, 34, 76, 34, 58, 49, 125] := by
  refine ⟨following_member, rfl, rfl, rfl, rfl, rfl, ?_, ?_⟩
  · rintro ⟨whole, -⟩
    exact absurd whole (by decide)
  · rintro ⟨whole, -⟩
    exact absurd whole (by decide)

end Literals
end Hiview.EventRaw.JsonParser
