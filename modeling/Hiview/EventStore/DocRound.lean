import Hiview.EventStore.DocLayout

/-! One round of the page loop, by position: at a content, at the zeros behind the
last content of a page and at the end of the file. -/
namespace Hiview.EventStore
open List
open DocLayout (torn visibleSize)
open InputStream (read_ready read_short seekgCur_back tellg_ready)

theorem castUint32_of_lt {num : Nat} (small : num < 2 ^ 32) : castUint32 num = num := by
  rw [castUint32, wordSize, Int.emod_eq_of_lt (by omega) (by omega), Int.toNat_natCast]

namespace SysEventDocReader

/-- A reader that has read the header and stands in a good state at `pos`. -/
def cursor (file : List UInt8) (pageSize docHeaderSize : Nat) (extra : HeadExtraInfo) (pos : Nat) :
    SysEventDocReader :=
  ⟨.ready file pos, castInt file.length, pageSize, 4, docHeaderSize, extra⟩

section Round
variable {file : List UInt8} {pageSize docHeaderSize : Nat} {extra : HeadExtraInfo}
variable {pos : Nat}

theorem hasReadFileEnd_cursor (small : pos < 2 ^ 31) :
    (cursor file pageSize docHeaderSize extra pos).hasReadFileEnd =
      (false, cursor file pageSize docHeaderSize extra pos) := by
  have inside : ¬ castInt pos < 0 := by
    rw [castInt_of_lt small]
    omega
  rw [hasReadFileEnd, cursor, tellg_ready, decide_eq_false inside]
  rfl

theorem hasReadFileEnd_past (large : 2 ^ 31 ≤ pos) (bound : pos < 2 ^ 32) :
    (cursor file pageSize docHeaderSize extra pos).hasReadFileEnd.1 = true := by
  rw [hasReadFileEnd, cursor, InputStream.tellg_ready,
    decide_eq_true (castInt_of_ge large bound), Bool.true_or]

variable {reader : SysEventDocReader}

theorem hasReadFileEnd_failed (failed : reader.stream.fail = true) : reader.hasReadFileEnd.1 = true := by
  have bad : ¬ reader.stream.good = true := by
    rw [InputStream.good, failed, Bool.not_true, Bool.and_false]
    exact Bool.false_ne_true
  have negative : castInt (-1) < 0 := by decide +kernel
  rw [hasReadFileEnd, InputStream.tellg, if_neg bad, decide_eq_true negative, Bool.true_or]

theorem round_ended (ended : reader.hasReadFileEnd.1 = true) (pageIndex : Nat) : reader.round pageIndex = .stop := by
  rw [round, if_pos ended]

theorem readPages_ended (ended : reader.hasReadFileEnd.1 = true) (rounds pageIndex : Nat) :
    readPages (rounds + 1) reader pageIndex = some [] := by
  rw [readPages, round_ended ended]

theorem leavePage_failed (failed : reader.stream.fail = true) (pageIndex : Nat) :
    reader.leavePage pageIndex = .stop := by
  rw [leavePage, seekgPage, if_pos (hasReadFileEnd_failed failed)]
  rfl

theorem leavePage_cases (reader : SysEventDocReader) (pageIndex : Nat) :
    reader.leavePage pageIndex = .stop ∨ ∃ next, reader.leavePage pageIndex = .nextPage next := by
  rw [leavePage]
  split
  · exact .inr ⟨_, rfl⟩
  · exact .inl rfl

variable {pageIndex : Nat} {result : Except DocStore Content × SysEventDocReader}

theorem settle_deliver {content : Content} (settled : settle result pageIndex = .deliver content reader) :
    result.1 = .ok content := by
  rw [settle] at settled
  split at settled
  · rename_i found read
    rw [read, (Round.deliver.inj settled).1]
  · rcases leavePage_cases result.2 pageIndex with stop | ⟨next, left⟩
    · rw [stop] at settled
      cases settled
    · rw [left] at settled
      cases settled

theorem settle_stop (settled : settle result pageIndex = .stop) :
    ∃ code, result.1 = .error code := by
  rw [settle] at settled
  split at settled
  · cases settled
  · exact ⟨_, by assumption⟩

theorem round_cursor (small : pos < 2 ^ 31) (pageIndex : Nat) :
    (cursor file pageSize docHeaderSize extra pos).round pageIndex =
      settle ((cursor file pageSize docHeaderSize extra pos).readContent pageIndex) pageIndex := by
  rw [round, hasReadFileEnd_cursor small, if_neg Bool.false_ne_true]

variable {len : Nat}

variable (low : pageSize * pageIndex ≤ len)
include low

/-- Whether the page ends at body length `len`, for a position in page
`pageIndex`. -/
theorem atPageEnd_cursor (high : len ≤ pageSize * (pageIndex + 1))
    (small : docHeaderSize + len < 2 ^ 31) (page : pageSize < 2 ^ 18) :
    (cursor file pageSize docHeaderSize extra (docHeaderSize + len)).atPageEnd pageIndex =
      decide (0 < len ∧ (len = pageSize * (pageIndex + 1) ∨
        pageSize ≤ len - pageSize * pageIndex + hiviewBlockSize)) := by
  have next : pageSize * (pageIndex + 1) = pageSize * pageIndex + pageSize := Nat.mul_succ _ _
  have wrap : pageSize * (pageIndex + 1) % wordSize = pageSize * (pageIndex + 1) :=
    Nat.mod_eq_of_lt (by rw [wordSize]; omega)
  have position : castUint32 ((docHeaderSize + len : Nat) : Int) = docHeaderSize + len :=
    castUint32_of_lt (by omega)
  rw [atPageEnd, cursor, tellg_ready]
  simp only [position, wrap]
  by_cases start : len = 0
  · simp [start]
  · have past : ¬ docHeaderSize + len ≤ docHeaderSize := by omega
    rw [if_neg past]
    by_cases full : len = pageSize * (pageIndex + 1)
    · have here : docHeaderSize + len = docHeaderSize + pageSize * (pageIndex + 1) := by omega
      have yes : 0 < len ∧ (len = pageSize * (pageIndex + 1) ∨
          pageSize ≤ len - pageSize * pageIndex + hiviewBlockSize) := ⟨by omega, .inl full⟩
      rw [if_pos here, decide_eq_true yes]
    · have elsewhere : ¬ docHeaderSize + len = docHeaderSize + pageSize * (pageIndex + 1) := by
        omega
      have offset : (docHeaderSize + len - docHeaderSize) % pageSize = len - pageSize * pageIndex := by
        rw [Nat.add_sub_cancel_left]
        obtain ⟨rest, rfl⟩ := Nat.exists_eq_add_of_le low
        rw [Nat.mul_add_mod, Nat.mod_eq_of_lt (by omega), Nat.add_sub_cancel_left]
      rw [if_neg elsewhere, offset]
      apply decide_eq_decide.mpr
      omega

theorem readContent_cursor (high : len ≤ pageSize * (pageIndex + 1))
    (small : docHeaderSize + len < 2 ^ 31) (page : pageSize < 2 ^ 18) :
    (cursor file pageSize docHeaderSize extra (docHeaderSize + len)).readContent pageIndex =
      if 0 < len ∧ (len = pageSize * (pageIndex + 1) ∨ pageSize ≤ len - pageSize * pageIndex + hiviewBlockSize) then
        (.error .readEmpty, cursor file pageSize docHeaderSize extra (docHeaderSize + len))
      else (cursor file pageSize docHeaderSize extra (docHeaderSize + len)).nextContent := by
  rw [readContent, hasReadPageEnd, hasReadFileEnd_cursor small, if_neg Bool.false_ne_true,
    atPageEnd_cursor low high small page]
  simp only [decide_eq_true_eq]

theorem readContent_inside
    (room : len + minContentSize ≤ pageSize * (pageIndex + 1)) (small : docHeaderSize + len < 2 ^ 31)
    (page : pageSize < 2 ^ 18) :
    (cursor file pageSize docHeaderSize extra (docHeaderSize + len)).readContent pageIndex =
      (cursor file pageSize docHeaderSize extra (docHeaderSize + len)).nextContent := by
  have next : pageSize * (pageIndex + 1) = pageSize * pageIndex + pageSize := Nat.mul_succ _ _
  have size : minContentSize = 47 := rfl
  have block : hiviewBlockSize = 4 := rfl
  rw [readContent_cursor low (by omega) small page, if_neg (by omega)]

omit low

theorem readContent_outset (small : docHeaderSize < 2 ^ 31) (pageIndex : Nat) :
    (cursor file pageSize docHeaderSize extra docHeaderSize).readContent pageIndex =
      (cursor file pageSize docHeaderSize extra docHeaderSize).nextContent := by
  have inside : (cursor file pageSize docHeaderSize extra docHeaderSize).atPageEnd pageIndex =
      false := by
    rw [atPageEnd, cursor, InputStream.tellg_ready, castUint32_of_lt (by omega),
      if_pos (Nat.le_refl _)]
  rw [readContent, hasReadPageEnd, hasReadFileEnd_cursor small, if_neg Bool.false_ne_true, inside,
    if_neg Bool.false_ne_true]

variable {value : Nat} {stream : InputStream}

variable (read : readValueAndReset (.ready file pos) = (value, stream))
include read

theorem nextContent_empty
    (least : value < minContentSize) :
    (cursor file pageSize docHeaderSize extra pos).nextContent =
      (.error .readEmpty, { cursor file pageSize docHeaderSize extra pos with stream }) := by
  simp only [nextContent, cursor, read, if_pos least]

theorem nextContent_buffer
    (least : ¬ value < minContentSize) (most : value ≤ maxNewSize) :
    (cursor file pageSize docHeaderSize extra pos).nextContent =
      (.ok (readBuffer stream value).1,
        { cursor file pageSize docHeaderSize extra pos with
          stream := (readBuffer stream value).2 }) := by
  simp only [nextContent, cursor, read, if_neg least, if_neg (Nat.not_lt.mpr most)]

omit read

variable {event : DocEvent}

theorem nextContent_whole (fits : event.contentSize ≤ maxNewSize) (here : Bytes.Occurs file pos event.content) :
    (cursor file pageSize docHeaderSize extra pos).nextContent =
      (.ok (event.stored),
        cursor file pageSize docHeaderSize extra (pos + event.contentSize)) := by
  have large := event.contentSize_ge
  have limit : maxNewSize = 395264 := rfl
  have word : Bytes.Occurs file pos (Bytes.littleEndian 4 event.contentSize) := by
    rw [DocEvent.content, append_assoc, append_assoc] at here
    exact (Bytes.occurs_append.mp here).1
  have value : readValueAndReset (.ready file pos) = (event.contentSize, .ready file pos) := by
    have got := read_ready word
    rw [Bytes.littleEndian_length] at got
    rw [readValueAndReset, got, Bytes.value_littleEndian_of_lt (by omega)]
    exact congrArg _ (seekgCur_back file pos 4)
  have buffer : readBuffer (.ready file pos) event.contentSize =
      (event.stored, .ready file (pos + event.contentSize)) := by
    have got := read_ready here
    rw [event.content_length] at got
    rw [readBuffer, got, event.content_length, Nat.sub_self, replicate_zero, append_nil]
    rfl
  rw [nextContent_buffer value (Nat.not_lt.mpr large) fits, buffer, cursor, cursor]

theorem readValueAndReset_ready (inside : pos ≤ file.length) :
    readValueAndReset (.ready file pos) = (Bytes.value ((file.drop pos).take 4),
      if file.length < pos + 4 then ⟨file, file.length, false, true⟩ else .ready file pos) := by
  by_cases short : file.length < pos + 4
  · have rest : (file.drop pos).take 4 = file.drop pos :=
      take_of_length_le (by rw [length_drop]; omega)
    rw [readValueAndReset, read_short short inside, rest, if_pos short]
    rfl
  · have word : Bytes.Occurs file pos ((file.drop pos).take 4) := take_prefix 4 _
    have four : ((file.drop pos).take 4).length = 4 := by
      rw [length_take, length_drop]
      omega
    have got := read_ready word
    rw [four] at got
    rw [readValueAndReset, got, if_neg short]
    exact congrArg _ (seekgCur_back file pos 4)

/-- A size word that reads as zero is no content. What is left of the stream
depends on whether its four bytes were there. -/
theorem nextContent_blank (inside : pos ≤ file.length) (blank : Bytes.value ((file.drop pos).take 4) = 0) :
    ∃ reader, (cursor file pageSize docHeaderSize extra pos).nextContent =
      (.error .readEmpty, reader) ∧
      (reader = cursor file pageSize docHeaderSize extra pos ∨
        file.length < pos + 4 ∧ reader.stream.fail = true) := by
  have read := readValueAndReset_ready inside
  rw [blank] at read
  refine ⟨_, nextContent_empty read (by decide), ?_⟩
  by_cases short : file.length < pos + 4
  · exact .inr ⟨short, by simp only [if_pos short]⟩
  · exact .inl (by simp only [if_neg short, cursor])

theorem visibleSize_of_drop (here : file.drop pos = event.content.take (file.length - pos)) :
    Bytes.value ((file.drop pos).take 4) =
      visibleSize event (file.length - pos) := by
  have word : event.content.take (min 4 (file.length - pos)) =
      Bytes.littleEndian (min (file.length - pos) 4) event.contentSize := by
    have front : min 4 (file.length - pos) ≤ (Bytes.littleEndian 4 event.contentSize).length := by
      exact Nat.min_le_left _ _
    rw [DocEvent.content, append_assoc, append_assoc, take_append_of_le_length front,
      Bytes.littleEndian_take, Nat.min_right_comm, Nat.min_self, Nat.min_comm]
  rw [here, take_take, word, Bytes.value_littleEndian]
  rfl

theorem visibleSize_of_le {visible : Nat} (fits : event.contentSize ≤ maxNewSize) (whole : 4 ≤ visible) :
    visibleSize event visible = event.contentSize := by
  have limit : maxNewSize = 395264 := rfl
  rw [visibleSize, hiviewBlockSize, Nat.min_eq_right whole]
  exact Nat.mod_eq_of_lt (by omega)

/-- A content that is cut short: what is delivered, and that the stream fails. -/
theorem settle_torn (fits : event.contentSize ≤ maxNewSize) (inside : pos ≤ file.length)
    (short : file.length < pos + event.contentSize) (here : file.drop pos = event.content.take (file.length - pos))
    (pageIndex : Nat) :
    (settle (cursor file pageSize docHeaderSize extra pos).nextContent pageIndex = .stop ∧
      torn event (file.length - pos) = []) ∨
    ∃ content reader, settle (cursor file pageSize docHeaderSize extra pos).nextContent pageIndex =
      .deliver content reader ∧ reader.stream.fail = true ∧
      torn event (file.length - pos) = [content] := by
  have large := event.contentSize_ge
  have read := readValueAndReset_ready inside
  rw [visibleSize_of_drop here] at read
  have most : visibleSize event (file.length - pos) ≤ maxNewSize :=
    Nat.le_trans (Nat.mod_le _ _) fits
  by_cases least : visibleSize event (file.length - pos) < minContentSize
  · have cut : file.length < pos + 4 := by
      by_contra whole
      rw [visibleSize_of_le fits (by omega)] at least
      exact absurd large (Nat.not_le.mpr least)
    rw [if_pos cut] at read
    refine .inl ⟨?_, by rw [torn, if_pos least]⟩
    rw [nextContent_empty read least]
    exact leavePage_failed rfl pageIndex
  · by_cases cut : file.length < pos + 4
    · have few : file.length - pos < hiviewBlockSize := by rw [hiviewBlockSize]; omega
      rw [if_pos cut] at read
      refine .inr ⟨_, _, by rw [nextContent_buffer read least most]; rfl, rfl, ?_⟩
      rw [torn, if_neg least, if_pos few]
      rfl
    · have many : ¬ file.length - pos < hiviewBlockSize := by rw [hiviewBlockSize]; omega
      have all := visibleSize_of_le fits (show 4 ≤ file.length - pos by omega)
      have got := read_short short inside
      rw [if_neg cut, all] at read
      refine .inr ⟨_, _, by rw [nextContent_buffer read (Nat.not_lt.mpr large) fits]; rfl, ?_, ?_⟩
      · rw [readBuffer, got]
      · rw [torn, if_neg least, if_neg many, readBuffer, got, length_drop, here]

theorem seekSize_eq (bound : pageSize * pageIndex < 2 ^ 32) : pageSize * pageIndex % wordSize = pageSize * pageIndex :=
  Nat.mod_eq_of_lt (by rw [wordSize]; omega)

theorem seekgPage_cursor (small : pos < 2 ^ 31) (size : pageSize * pageIndex % wordSize = pageSize * pageIndex) :
    (cursor file pageSize docHeaderSize extra pos).seekgPage pageIndex =
      if castInt ((docHeaderSize + pageSize * pageIndex : Nat) : Int) < castInt file.length then
        (.success, cursor file pageSize docHeaderSize extra (docHeaderSize + pageSize * pageIndex))
      else (.errorIo, { cursor file pageSize docHeaderSize extra pos with
        stream := (InputStream.ready file pos).setEof }) := by
  rw [seekgPage, hasReadFileEnd_cursor small, if_neg Bool.false_ne_true, readFileSize, cursor, size,
    InputStream.seekg_ready, cursor]

theorem leavePage_cursor (small : pos < 2 ^ 31) (size : pageSize * (pageIndex + 1) < 2 ^ 32) :
    (cursor file pageSize docHeaderSize extra pos).leavePage pageIndex =
      if castInt ((docHeaderSize + pageSize * (pageIndex + 1) : Nat) : Int) < castInt file.length then
        .nextPage (cursor file pageSize docHeaderSize extra (docHeaderSize + pageSize * (pageIndex + 1)))
      else .stop := by
  rw [leavePage, seekgPage_cursor small (seekSize_eq size)]
  split <;> rfl

theorem leavePage_next (small : pos < 2 ^ 31) (short : file.length < 2 ^ 31)
    (there : docHeaderSize + pageSize * (pageIndex + 1) < file.length) :
    (cursor file pageSize docHeaderSize extra pos).leavePage pageIndex =
      .nextPage (cursor file pageSize docHeaderSize extra
        (docHeaderSize + pageSize * (pageIndex + 1))) := by
  rw [leavePage_cursor small (by omega), castInt_of_lt (by omega), castInt_of_lt short, if_pos (by omega)]

/-- The next page is not there. A page that would start past 2 GiB is sought
nevertheless; the position is then taken for the end of the file. -/
theorem leavePage_last (small : pos < 2 ^ 31) (short : file.length < 2 ^ 31)
    (bound : docHeaderSize + pageSize * (pageIndex + 1) < 2 ^ 32)
    (missing : file.length ≤ docHeaderSize + pageSize * (pageIndex + 1)) (rounds : Nat) :
    (match (cursor file pageSize docHeaderSize extra pos).leavePage pageIndex with
    | .stop => some []
    | .deliver content reader => (readPages (rounds + 1) reader pageIndex).map (content :: ·)
    | .nextPage reader => readPages (rounds + 1) reader (pageIndex + 1)) = some [] := by
  rw [leavePage_cursor small (by omega), castInt_of_lt short]
  by_cases past : docHeaderSize + pageSize * (pageIndex + 1) < 2 ^ 31
  · rw [castInt_of_lt past, if_neg (by omega)]
  · have negative := castInt_of_ge (Nat.not_lt.mp past) bound
    rw [if_pos (by omega)]
    exact readPages_ended (hasReadFileEnd_past (Nat.not_lt.mp past) bound) rounds (pageIndex + 1)

variable (low : pageSize * pageIndex ≤ len)
include low

/-- Behind the last content of a page the reader leaves the page, unless the
file ends before the next size word could be read. -/
theorem round_blank (high : len ≤ pageSize * (pageIndex + 1))
    (small : docHeaderSize + len < 2 ^ 31) (page : pageSize < 2 ^ 18) (large : 1024 ≤ pageSize)
    (inside : docHeaderSize + len ≤ file.length) (blank : len + hiviewBlockSize < pageSize * (pageIndex + 1) →
      Bytes.value ((file.drop (docHeaderSize + len)).take 4) = 0) :
    (cursor file pageSize docHeaderSize extra (docHeaderSize + len)).round pageIndex =
      (cursor file pageSize docHeaderSize extra (docHeaderSize + len)).leavePage pageIndex ∨
    file.length < docHeaderSize + len + 4 ∧
      len + hiviewBlockSize < pageSize * (pageIndex + 1) ∧
      (cursor file pageSize docHeaderSize extra (docHeaderSize + len)).round pageIndex = .stop := by
  have next : pageSize * (pageIndex + 1) = pageSize * pageIndex + pageSize := Nat.mul_succ _ _
  have block : hiviewBlockSize = 4 := rfl
  rw [round_cursor small, readContent_cursor low high small page]
  by_cases ended : 0 < len ∧ (len = pageSize * (pageIndex + 1) ∨
      pageSize ≤ len - pageSize * pageIndex + hiviewBlockSize)
  · left
    rw [if_pos ended, settle]
  · have before : len + hiviewBlockSize < pageSize * (pageIndex + 1) := by omega
    obtain ⟨reader, read, outcome⟩ := nextContent_blank inside (blank before)
    rw [if_neg ended, read, settle]
    rcases outcome with rfl | ⟨short, failed⟩
    · exact .inl rfl
    · exact .inr ⟨short, before, leavePage_failed failed pageIndex⟩

theorem round_whole (room : len + event.contentSize ≤ pageSize * (pageIndex + 1))
    (small : docHeaderSize + len < 2 ^ 31) (page : pageSize < 2 ^ 18) (fits : event.contentSize ≤ maxNewSize)
    (here : Bytes.Occurs file (docHeaderSize + len) event.content) :
    (cursor file pageSize docHeaderSize extra (docHeaderSize + len)).round pageIndex =
      .deliver (event.stored)
        (cursor file pageSize docHeaderSize extra (docHeaderSize + len + event.contentSize)) := by
  have large := event.contentSize_ge
  have least : minContentSize = 47 := rfl
  rw [round_cursor small, readContent_inside low (by omega) small page, nextContent_whole fits here]
  rfl

end Round

end SysEventDocReader
end Hiview.EventStore
