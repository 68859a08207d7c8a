import Hiview.Lib.Text

/-! The names `NAME-TYPE-LEVEL-SEQ-INTERVAL.db` of db files: how `SysEventDoc`
builds them and what `EventDbFileUtil` reads from them. -/
namespace Hiview.EventStore
open List Numeral Text

/-- `StringUtil::SplitStr` with its defaults: parts are trimmed, empty ones dropped. -/
def splitStr (text : List UInt8) (sep : UInt8) : List (List UInt8) :=
  ((Text.splitOn sep (Text.trim text)).map Text.trim).filter (· ≠ [])

/-- `FileUtil::ExtractFileName`: what follows the last slash. -/
def extractFileName (path : List UInt8) : List UInt8 := (path.reverse.takeWhile (· ≠ 47)).reverse

inductive EventLevel where
  | critical | minor
  deriving DecidableEq

def EventLevel.text : EventLevel → List UInt8
  | .critical => ascii "CRITICAL"
  | .minor => ascii "MINOR"

def plainChar (char : UInt8) : Bool := char ≠ 32 && char ≠ 45 && char ≠ 47

/-- An event name as `IsValidDomainName` accepts it. -/
structure EventName where
  text : List UInt8
  nonempty : text ≠ []
  plain : text.all plainChar = true

/-- What a query looks at in the name of a db file. -/
structure SplitedEventInfo where
  name : List UInt8
  type : Nat
  seq : Int
  reportInterval : Int
  deriving DecidableEq

def notCfgReportInterval : Int := -1

/-- The name `CreateCurFile` builds. -/
def dbFileName (name : EventName) (type : Nat) (level : EventLevel) (seq : Int) (interval : Int16) :
    List UInt8 :=
  name.text ++ 45 :: (Numeral.toString type ++ 45 :: (level.text ++ 45 :: (Numeral.toString seq ++
    45 :: (Numeral.toString interval.toInt ++ Numeral.ascii ".db"))))

namespace EventDbFileUtil

/-- `ParseEventInfoFromDbFileName` for the sequence only. -/
def parseSeq (fileName : List UInt8) : Option Int :=
  let eventInfoList := splitStr fileName 45
  if eventInfoList.length = 4 ∨ eventInfoList.length = 5 then
    let seq := toSigned 64 (extract 10 (eventInfoList.getD 3 []))
    if seq ≤ 0 then none else some seq
  else none

def isValidDomainName (content : List UInt8) (lenLimit : Nat) : Bool :=
  content.length < lenLimit && content.all fun char =>
    (48 ≤ char && char ≤ 57) || (65 ≤ char && char ≤ 90) || (97 ≤ char && char ≤ 122) || char = 95

def maxEventNameLen : Nat := 33

/-- Fault, statistic, security and behaviour events. -/
def isValidType (type : Int) : Bool := 1 ≤ type && type ≤ 4

def parseVer1 (name type seq : List UInt8) : Option SplitedEventInfo :=
  let kind := toSigned 32 (extract 10 type)
  let num := toSigned 64 (extract 10 seq)
  if !isValidDomainName name maxEventNameLen then none
  else if !isValidType kind then none
  else if num ≤ 0 then none
  else some ⟨name, kind.toNat, num, notCfgReportInterval⟩

def parseInterval (interval : List UInt8) (info : SplitedEventInfo) : Option SplitedEventInfo :=
  let cycle := toSigned 16 (extract 10 interval)
  if cycle < 0 then none else some { info with reportInterval := cycle }

/-- `ParseEventInfoFromDbFileName` for everything but the level. -/
def parseEventInfo (fileName : List UInt8) : Option SplitedEventInfo :=
  match splitStr fileName 45 with
  | [name, type, _, seq] => parseVer1 name type seq
  | [name, type, _, seq, interval] => (parseVer1 name type seq).bind (parseInterval interval)
  | _ => none

def isMatchedDbFilePath (filePath : List UInt8) (interval : Int16) : Bool :=
  let eventInfoList := splitStr (extractFileName filePath) 45
  eventInfoList.length = 5 &&
    toSigned 16 (extract 10 (eventInfoList.getD 4 [])) = interval.toInt

variable {info : SplitedEventInfo}

theorem parseVer1_fields (parsed : parseVer1 name type seq = some info) :
    (0 < info.seq ∧ toSigned 64 (extract 10 seq) = info.seq) ∧ isValidDomainName name maxEventNameLen = true ∧
      isValidType (toSigned 32 (extract 10 type)) = true ∧
      info.name = name ∧ info.type = (toSigned 32 (extract 10 type)).toNat := by
  revert parsed
  fun_cases parseVer1 name type seq with
  | case4 _ _ domain kind positive =>
    rintro ⟨⟩
    rw [Bool.not_eq_true, Bool.not_eq_false'] at domain kind
    exact ⟨⟨Int.not_le.mp positive, rfl⟩, domain, kind, rfl, rfl⟩
  | _ => nofun

/-- The parts of a name, with an interval at their end or without. -/
theorem parseEventInfo_parts (parsed : parseEventInfo fileName = some info) :
    ∃ name type level seq more, splitStr fileName 45 = name :: type :: level :: seq :: more ∧ more.length ≤ 1 ∧
      ∃ first, parseVer1 name type seq = some first ∧
        info.seq = first.seq ∧ info.name = first.name ∧ info.type = first.type := by
  rw [parseEventInfo] at parsed
  split at parsed
  · case h_1 name type level seq parts =>
    exact ⟨name, type, level, seq, [], parts, Nat.zero_le _, info, parsed, rfl, rfl, rfl⟩
  · case h_2 name type level seq interval parts =>
    obtain ⟨first, early, late⟩ := Option.bind_eq_some_iff.mp parsed
    rw [parseInterval] at late
    split at late
    · cases late
    · cases late
      exact ⟨name, type, level, seq, [interval], parts, Nat.le_refl _, first, early, rfl, rfl, rfl⟩
  · cases parsed

theorem parts_number {more : List (List UInt8)} (few : more.length ≤ 1) (name type level seq : List UInt8) :
    (name :: type :: level :: seq :: more).length = 4 ∨ (name :: type :: level :: seq :: more).length = 5 := by
  rw [length_cons, length_cons, length_cons, length_cons]
  omega

theorem parseSeq_of_parseEventInfo (parsed : parseEventInfo fileName = some info) :
    0 < info.seq ∧ parseSeq fileName = some info.seq := by
  obtain ⟨name, type, level, seq, more, parts, few, first, early, same, -⟩ := parseEventInfo_parts parsed
  obtain ⟨positive, value⟩ := (parseVer1_fields early).1
  rw [same, parseSeq, parts, if_pos (parts_number few name type level seq)]
  simp only [getD_cons_succ, getD_cons_zero, value]
  exact ⟨positive, if_neg (Int.not_le.mpr positive)⟩

end EventDbFileUtil

section Split
variable (name : EventName) (type : Nat) (level : EventLevel) (interval : Int16)

theorem plain_of_all {text : List UInt8} (plain : text.all plainChar = true) :
    ∀ char ∈ text, char ≠ 32 ∧ char ≠ 45 ∧ char ≠ 47 := by
  intro char member
  have this := all_eq_true.mp plain char member
  simp only [plainChar, Bool.and_eq_true, decide_eq_true_eq] at this
  exact ⟨this.1.1, this.1.2, this.2⟩

theorem decimal_plain (num : Nat) :
    ∀ char ∈ decimal num, char ≠ 32 ∧ char ≠ 45 ∧ char ≠ 47 := by
  intro char member
  have large := (decimal_chars num char member).1
  exact ⟨ne_of_toNat large (show 32 < 48 by decide),
    ne_of_toNat large (show 45 < 48 by decide),
    ne_of_toNat large (show 47 < 48 by decide)⟩

theorem toString_nonneg (nonneg : 0 ≤ num) : toString num = decimal num.natAbs :=
  if_neg (Int.not_lt.mpr nonneg)

theorem decimal_ne_nil (num : Nat) : decimal num ≠ [] := by
  obtain ⟨char, rest, text, -⟩ := decimal_cons num
  rw [text]
  exact cons_ne_nil _ _

/-- The last part of a name, without the sign of an interval that is negative. -/
def intervalPart : List UInt8 := decimal interval.toInt.natAbs ++ ascii ".db"

theorem intervalPart_plain : ∀ char ∈ intervalPart interval, char ≠ 32 ∧ char ≠ 45 ∧ char ≠ 47 := by
  intro char member
  rcases mem_append.mp member with digit | ending
  · exact decimal_plain _ char digit
  · exact plain_of_all (by decide) char ending

theorem splitOn_interval :
    (Text.splitOn 45 (Numeral.toString interval.toInt ++ Numeral.ascii ".db")).filter (· ≠ []) =
      [intervalPart interval] := by
  have clean : 45 ∉ intervalPart interval := fun member =>
    (intervalPart_plain interval 45 member).2.1 rfl
  have present : intervalPart interval ≠ [] :=
    append_ne_nil_of_left_ne_nil (decimal_ne_nil _) _
  have single : [intervalPart interval].filter (· ≠ []) = [intervalPart interval] := by
    rw [filter_cons, if_pos (decide_eq_true present), filter_nil]
  rw [Numeral.toString]
  split
  · change List.filter _ (Text.splitOn 45 (45 :: intervalPart interval)) = _
    rw [Text.splitOn, if_pos rfl, Text.splitOn_self clean]
    exact single
  · change List.filter _ (Text.splitOn 45 (intervalPart interval)) = _
    rw [splitOn_self clean]
    exact single

theorem level_plain : (∀ char ∈ level.text, char ≠ 32 ∧ char ≠ 45 ∧ char ≠ 47) ∧ level.text ≠ [] := by
  cases level with
  | critical | minor => exact ⟨plain_of_all (by decide), by decide⟩

theorem splitOn_dbFileName {seq : Int} (nonneg : 0 ≤ seq) :
    Text.splitOn 45 (dbFileName name type level seq interval) =
      [name.text, toString type, level.text, toString seq] ++
        Text.splitOn 45 (Numeral.toString interval.toInt ++ Numeral.ascii ".db") := by
  have kind : (0 : Int) ≤ type := by omega
  rw [dbFileName, toString_nonneg kind, toString_nonneg nonneg]
  rw [splitOn_append (fun member => (plain_of_all name.plain 45 member).2.1 rfl),
    splitOn_append (fun member => (decimal_plain _ 45 member).2.1 rfl),
    splitOn_append (fun member => ((level_plain level).1 45 member).2.1 rfl),
    splitOn_append (fun member => (decimal_plain _ 45 member).2.1 rfl)]
  rfl

theorem dbFileName_plain {seq : Int} (nonneg : 0 ≤ seq) :
    ∀ char ∈ dbFileName name type level seq interval, char ≠ 32 ∧ char ≠ 47 := by
  have kind : (0 : Int) ≤ type := by omega
  have report : ∀ char ∈ Numeral.toString interval.toInt, char ≠ 32 ∧ char ≠ 47 := by
    have digits : ∀ char ∈ decimal interval.toInt.natAbs, char ≠ 32 ∧ char ≠ 47 :=
      fun char member => ⟨(decimal_plain _ char member).1, (decimal_plain _ char member).2.2⟩
    rw [Numeral.toString]
    split
    · exact forall_mem_cons.mpr ⟨by decide, digits⟩
    · exact digits
  have ending : ∀ char ∈ ascii ".db", char ≠ 32 ∧ char ≠ 45 ∧ char ≠ 47 :=
    plain_of_all (by decide)
  have dash : (45 : UInt8) ≠ 32 ∧ (45 : UInt8) ≠ 47 := by decide
  intro char member
  rw [dbFileName, toString_nonneg kind, toString_nonneg nonneg] at member
  simp only [mem_append, mem_cons] at member
  rcases member with member | rfl | member | rfl | member | rfl | member | rfl | member | member
  · exact ⟨(plain_of_all name.plain char member).1, (plain_of_all name.plain char member).2.2⟩
  · exact dash
  · exact ⟨(decimal_plain _ char member).1, (decimal_plain _ char member).2.2⟩
  · exact dash
  · exact ⟨((level_plain level).1 char member).1, ((level_plain level).1 char member).2.2⟩
  · exact dash
  · exact ⟨(decimal_plain _ char member).1, (decimal_plain _ char member).2.2⟩
  · exact dash
  · exact report char member
  · exact ⟨(ending char member).1, (ending char member).2.2⟩

theorem splitStr_of_notMem (blank : 32 ∉ text) (sep : UInt8) :
    splitStr text sep = (Text.splitOn sep text).filter (· ≠ []) := by
  have same : (Text.splitOn sep text).map Text.trim = Text.splitOn sep text :=
    map_congr_left (fun part found => trim_of_notMem fun member =>
      blank (mem_of_mem_splitOn found member)) |>.trans (map_id _)
  rw [splitStr, trim_of_notMem blank, same]

theorem splitStr_dbFileName (nonneg : 0 ≤ seq) :
    splitStr (dbFileName name type level seq interval) 45 =
      [name.text, toString type, level.text, toString seq,
        intervalPart interval] := by
  have blank : 32 ∉ dbFileName name type level seq interval := fun member =>
    (dbFileName_plain name type level interval nonneg 32 member).1 rfl
  have kind : (0 : Int) ≤ type := by omega
  have present : ∀ part ∈ [name.text, toString type, level.text, toString seq],
      decide (part ≠ []) = true := by
    rw [toString_nonneg kind, toString_nonneg nonneg]
    simp only [forall_mem_cons, decide_eq_true_eq]
    exact ⟨name.nonempty, decimal_ne_nil _, (level_plain level).2, decimal_ne_nil _, nofun⟩
  rw [splitStr_of_notMem blank, splitOn_dbFileName name type level interval nonneg,
    filter_append, filter_eq_self.mpr present, splitOn_interval]
  rfl

theorem parseSeq_dbFileName (positive : 0 < seq) (high : seq ≤ 9223372036854775807) :
    EventDbFileUtil.parseSeq (dbFileName name type level seq interval) = some seq := by
  have value : toSigned 64 (some (decide (seq < 0), seq.natAbs)) = seq := by
    rw [decide_eq_false (by omega)]
    simp only [toSigned, Bool.false_eq_true, if_false]
    omega
  rw [EventDbFileUtil.parseSeq, splitStr_dbFileName name type level interval (Int.le_of_lt positive)]
  simp only [length_cons, length_nil, getD_cons_succ, getD_cons_zero, extract_toString, value]
  rw [if_pos (by decide), if_neg (by omega)]

theorem extractFileName_path (plain : 47 ∉ fileName) (dir : List UInt8) :
    extractFileName (dir ++ 47 :: fileName) = fileName := by
  have clean : ∀ char ∈ fileName.reverse, decide (char ≠ 47) = true := fun char member =>
    decide_eq_true fun same => plain (same ▸ mem_reverse.mp member)
  rw [extractFileName, reverse_append, reverse_cons, append_assoc, takeWhile_append_of_pos clean,
    singleton_append, takeWhile_cons_of_neg (by decide), append_nil, reverse_reverse]

end Split
end Hiview.EventStore
