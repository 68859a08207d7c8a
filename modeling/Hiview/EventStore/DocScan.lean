import Hiview.EventStore.DocRound

/-! The page loop on a document or on a front part of one: what a scan delivers
below 2 GiB, where it agrees with `DocLayout.delivered`, and what is left of it
above, where the file size no longer fits the `int` that holds it. -/
namespace Hiview.EventStore.SysEventDocReader
open List hiding count head length tail

section Scan
variable {file : List UInt8} {pageSize docHeaderSize : Nat} {extra : HeadExtraInfo}
open DocLayout

section Front
variable {start visible : Nat} {front rest : List UInt8}

theorem occurs_front (here : file.drop start = (front ++ rest).take visible)
    (enough : front.length ≤ visible) : Bytes.Occurs file start front := by
  rw [Bytes.Occurs, here, take_append, take_of_length_le enough]
  exact prefix_append _ _

theorem drop_behind {size : Nat} (length : front.length = size)
    (here : file.drop (docHeaderSize + start) = (front ++ rest).take visible) :
    file.drop (docHeaderSize + (start + size)) = rest.take (visible - size) := by
  rw [← Nat.add_assoc, ← drop_drop, here, drop_take, drop_left' length]

end Front

variable (page : pageSize < 2 ^ 18)
include page

theorem readPages_end {len : Nat} (large : 1024 ≤ pageSize)
    (short : file.length < 2 ^ 31) (inside : docHeaderSize + len ≤ file.length)
    (last : file.length ≤ docHeaderSize + pageSize * (pageOf pageSize len + 1))
    (zeros : file.drop (docHeaderSize + len) =
      List.replicate (file.length - (docHeaderSize + len)) 0) (rounds : Nat) :
    readPages (rounds + 2) (cursor file pageSize docHeaderSize extra (docHeaderSize + len))
      (pageOf pageSize len) = some [] := by
  have low := pageOf_low pageSize len
  have next : pageSize * (pageOf pageSize len + 1) = pageSize * pageOf pageSize len + pageSize :=
    Nat.mul_succ _ _
  have blank : Bytes.value ((file.drop (docHeaderSize + len)).take 4) = 0 := by
    rw [zeros, take_replicate, Bytes.value_zeros]
  rw [readPages]
  rcases round_blank low (pageOf_high (by omega)) (by omega) page large inside (fun _ => blank) with
    left | ⟨-, -, stop⟩
  · rw [left]
    exact leavePage_last (by omega) short (by omega) last rounds
  · rw [stop]

variable {event : DocEvent}

theorem readPages_torn {len pageIndex : Nat} (low : pageSize * pageIndex ≤ len)
    (room : len + event.contentSize ≤ pageSize * (pageIndex + 1)) (fits : event.contentSize ≤ maxNewSize)
    (short : file.length < 2 ^ 31) (inside : docHeaderSize + len ≤ file.length)
    (cut : file.length < docHeaderSize + len + event.contentSize) (here : file.drop (docHeaderSize + len) =
      event.content.take (file.length - (docHeaderSize + len))) (rounds : Nat) :
    readPages (rounds + 2) (cursor file pageSize docHeaderSize extra (docHeaderSize + len))
      pageIndex = some (torn event (file.length - (docHeaderSize + len))) := by
  have large := event.contentSize_ge
  have least : minContentSize = 47 := rfl
  rw [readPages, round_cursor (by omega), readContent_inside low (by omega) (by omega) page]
  rcases settle_torn fits inside cut here pageIndex with
    ⟨stop, nothing⟩ | ⟨content, reader, deliver, failed, something⟩
  · rw [stop, nothing]
  · rw [deliver, something]
    simp [readPages_ended (hasReadFileEnd_failed failed)]

theorem readPages_skip {len : Nat} (large : 1024 ≤ pageSize)
    (short : file.length < 2 ^ 31)
    (there : docHeaderSize + pageSize * (pageOf pageSize len + 1) < file.length)
    (zeros : Bytes.Occurs file (docHeaderSize + len)
      (List.replicate (pageSize * (pageOf pageSize len + 1) - len) 0)) (rounds : Nat) :
    readPages (rounds + 1) (cursor file pageSize docHeaderSize extra (docHeaderSize + len))
        (pageOf pageSize len) =
      readPages rounds (cursor file pageSize docHeaderSize extra
        (docHeaderSize + pageSize * (pageOf pageSize len + 1))) (pageOf pageSize len + 1) := by
  have high : len ≤ pageSize * (pageOf pageSize len + 1) := pageOf_high (by omega)
  have block : hiviewBlockSize = 4 := rfl
  have blank : len + hiviewBlockSize < pageSize * (pageOf pageSize len + 1) →
      Bytes.value ((file.drop (docHeaderSize + len)).take 4) = 0 := by
    intro before
    obtain ⟨rest, split⟩ := zeros
    rw [← split, take_append_of_le_length (by rw [length_replicate]; omega),
      take_replicate, Bytes.value_zeros]
  rcases round_blank (pageOf_low pageSize len) high (by omega) page large (by omega) blank with
    left | ⟨ending, before, -⟩
  · rw [readPages, left, leavePage_next (by omega) short there]
  · omega

variable {visible : Nat}

/-- At the start of a content: it is delivered whole and the scan goes on behind
it, or what is visible of it is the last thing the scan sees. -/
theorem readPages_record {tail : List UInt8} {after : List Content} {start pageIndex rounds : Nat}
    (low : pageSize * pageIndex ≤ start)
    (room : start + event.contentSize ≤ pageSize * (pageIndex + 1)) (fits : event.contentSize ≤ maxNewSize)
    (short : file.length < 2 ^ 31) (ending : file.length = docHeaderSize + start + visible)
    (here : file.drop (docHeaderSize + start) = (event.content ++ tail).take visible)
    (following : event.contentSize ≤ visible →
      readPages (rounds + 1) (cursor file pageSize docHeaderSize extra
        (docHeaderSize + start + event.contentSize)) pageIndex = some after) :
    readPages (rounds + 2) (cursor file pageSize docHeaderSize extra (docHeaderSize + start))
      pageIndex =
        some (if visible < event.contentSize then torn event visible
          else event.stored :: after) := by
  have size := event.content_length
  have left : file.length - (docHeaderSize + start) = visible := by omega
  by_cases cut : visible < event.contentSize
  · rw [take_append_of_le_length (by omega), ← left] at here
    rw [if_pos cut, readPages_torn page low room fits short (by omega) (by omega) here, left]
  · have whole := occurs_front here (by omega)
    rw [if_neg cut, readPages, round_whole low room (by omega) page fits whole]
    simp [following (by omega)]

variable {events : List DocEvent}

/-- What a scan delivers of a document, or of a front part of it, below 2 GiB. -/
theorem readPages_scan {len rounds : Nat} (large : 1024 ≤ pageSize)
    (fits : ∀ event ∈ events, event.contentSize ≤ pageSize) (short : file.length < 2 ^ 31)
    (ending : file.length = docHeaderSize + len + visible)
    (here : file.drop (docHeaderSize + len) = (bytes pageSize len events).take visible)
    (enough : 2 * visible + 2 ≤ rounds) :
    readPages rounds (cursor file pageSize docHeaderSize extra (docHeaderSize + len))
      (pageOf pageSize len) = some (delivered pageSize len events visible) := by
  induction events generalizing len visible rounds with
  | nil =>
    have high : len ≤ pageSize * (pageOf pageSize len + 1) := pageOf_high (by omega)
    have nothing : visible = 0 := by
      have same := congrArg List.length here
      rw [bytes, take_nil, length_nil, length_drop] at same
      omega
    have zeros : file.drop (docHeaderSize + len) =
        List.replicate (file.length - (docHeaderSize + len)) 0 := by
      rw [here, nothing, show file.length - (docHeaderSize + len) = 0 by omega]
      rfl
    obtain ⟨spare, rfl⟩ := Nat.exists_eq_add_of_le' enough
    exact readPages_end page large short (by omega) (by omega) zeros _
  | cons event rest ih =>
    have fit := fits event mem_cons_self
    have limit : maxNewSize = 395264 := rfl
    have least := event.contentSize_ge
    have placed : (fill pageSize len event.contentSize = 0 ∧
        len + event.contentSize ≤ pageSize * (pageOf pageSize len + 1)) ∨ _ :=
      fill_cases (by omega) fit
    simp [delivered]
    simp only [bytes] at here
    generalize fill pageSize len event.contentSize = gap at *
    have dropped := drop_behind length_replicate here
    by_cases blank : visible ≤ gap
    · have zeros : file.drop (docHeaderSize + len) =
          List.replicate (file.length - (docHeaderSize + len)) 0 := by
        rw [here, take_append_of_le_length (by rw [length_replicate]; omega), take_replicate]
        congr 1
        omega
      obtain ⟨spare, rfl⟩ := Nat.exists_eq_add_of_le' enough
      rw [if_pos blank]
      exact readPages_end page large short (by omega) (by omega) zeros _
    · rw [if_neg blank]
      have record : ∀ {pageIndex rounds : Nat}, pageSize * pageIndex ≤ len + gap →
          len + gap + event.contentSize ≤ pageSize * (pageIndex + 1) →
          2 * (visible - gap) + 1 ≤ rounds →
          readPages rounds (cursor file pageSize docHeaderSize extra (docHeaderSize + (len + gap)))
            pageIndex = some (if visible - gap < event.contentSize then torn event (visible - gap)
              else event.stored :: delivered pageSize (len + gap + event.contentSize) rest
                (visible - gap - event.contentSize)) := by
        intro pageIndex rounds low room enough
        obtain ⟨spare, rfl⟩ := Nat.exists_eq_add_of_le' (show 2 ≤ rounds by omega)
        refine readPages_record page low room (by omega) short (by omega) dropped ?_
        intro whole
        have following := ih (fun event member => fits event (mem_cons_of_mem _ member))
          (by omega) (drop_behind event.content_length dropped) (show _ ≤ spare + 1 by omega)
        rw [pageOf_eq (by omega) room, ← Nat.add_assoc] at following
        exact following
      have bound : visible < gap + event.contentSize ↔ visible - gap < event.contentSize := by omega
      simp [bound]
      rcases placed with ⟨rfl, room⟩ | ⟨-, boundary⟩
      · exact record (pageOf_low pageSize len) room (by omega)
      · have next : pageSize * (pageOf pageSize len + 1 + 1) =
            pageSize * (pageOf pageSize len + 1) + pageSize := Nat.mul_succ _ _
        have zeros : Bytes.Occurs file (docHeaderSize + len)
            (List.replicate (pageSize * (pageOf pageSize len + 1) - len) 0) := by
          rw [← boundary, Nat.add_sub_cancel_left]
          exact occurs_front here (by rw [length_replicate]; omega)
        obtain ⟨spare, rfl⟩ := Nat.exists_eq_add_of_le' (show 1 ≤ rounds by omega)
        rw [readPages_skip page large short (by omega) zeros, ← boundary]
        exact record (by omega) (by omega) (by omega)

omit page

theorem leavePage_negative {pos pageIndex : Nat} (small : pos < 2 ^ 31)
    (long : 2 ^ 31 ≤ file.length) (bound : file.length < 2 ^ 32)
    (near : docHeaderSize + pageSize * (pageIndex + 1) < 2 ^ 31) :
    (cursor file pageSize docHeaderSize extra pos).leavePage pageIndex = .stop := by
  have negative := castInt_of_ge long bound
  rw [leavePage_cursor small (by omega), castInt_of_lt near, if_neg (by omega)]

/-- From 2 GiB on, a scan ends with the first page and misses an event. -/
theorem readPages_firstPage {len rounds : Nat} (page : pageSize < 2 ^ 18) (large : 1024 ≤ pageSize)
    (fits : ∀ event ∈ events, event.contentSize ≤ pageSize) (long : 2 ^ 31 ≤ file.length)
    (bound : file.length < 2 ^ 32) (head : docHeaderSize < 2 ^ 20) (first : len ≤ pageSize)
    (ending : file.length = docHeaderSize + len + visible)
    (here : file.drop (docHeaderSize + len) = (bytes pageSize len events).take visible)
    (enough : pageSize - len + 1 ≤ rounds) :
    ∃ count < events.length, count ≤ whole pageSize len events visible ∧
      readPages rounds (cursor file pageSize docHeaderSize extra (docHeaderSize + len)) 0 =
        some ((events.take count).map DocEvent.stored) := by
  induction events generalizing len visible rounds with
  | nil =>
    have same := congrArg List.length here
    rw [bytes, take_nil, length_nil, length_drop] at same
    omega
  | cons event rest ih =>
    have fit := fits event mem_cons_self
    have limit : maxNewSize = 395264 := rfl
    have least := event.contentSize_ge
    have size := event.content_length
    have zero : pageOf pageSize len = 0 := Nat.div_eq_of_lt (by omega)
    have placed : (fill pageSize len event.contentSize = 0 ∧
        len + event.contentSize ≤ pageSize * (pageOf pageSize len + 1)) ∨ _ :=
      fill_cases (by omega) fit
    simp only [bytes] at here
    rw [zero, Nat.zero_add, Nat.mul_one] at placed
    obtain ⟨spare, rfl⟩ := Nat.exists_eq_add_of_le' (show 1 ≤ rounds by omega)
    rcases placed with ⟨gap, room⟩ | ⟨-, boundary⟩
    · rw [gap, replicate_zero, nil_append, Nat.add_zero] at here
      have whole := occurs_front here (by omega)
      obtain ⟨count, fewer, inside, following⟩ :=
        ih (fun event member => fits event (mem_cons_of_mem _ member)) room (by omega)
          (drop_behind size here) (show _ ≤ spare by omega)
      refine ⟨count + 1, Nat.succ_lt_succ fewer, ?_, ?_⟩
      · simp [DocLayout.whole, gap]
        rw [if_neg (by omega)]
        exact Nat.succ_le_succ inside
      rw [readPages, round_whole (by omega) (by omega) (by omega) page (by omega) whole]
      simp [Nat.add_assoc, following, take_succ_cons]
    · have blank : len + hiviewBlockSize < pageSize * (0 + 1) →
          Bytes.value ((file.drop (docHeaderSize + len)).take 4) = 0 := by
        intro before
        have block : hiviewBlockSize = 4 := rfl
        rw [here, take_take, take_append_of_le_length
          (by rw [length_replicate]; omega), take_replicate, Bytes.value_zeros]
      refine ⟨0, Nat.succ_pos _, Nat.zero_le _, ?_⟩
      rw [readPages]
      rcases round_blank (by omega) (by omega) (by omega) page large (by omega) blank with
        left | ⟨-, -, stop⟩
      · rw [left, leavePage_negative (by omega) long bound (by omega)]
        rfl
      · rw [stop]
        rfl

theorem readBody_pages (paged : pageSize ≠ 0) (pos : Nat) :
    (cursor file pageSize docHeaderSize extra pos).readBody = (.success,
      readPages (2 * file.length + wordSize) (cursor file pageSize docHeaderSize extra pos) 0) :=
  if_neg paged

variable (head : docHeaderSize < 2 ^ 31)
include head

theorem readBody_one {content : Content}
    (read : (cursor file 0 docHeaderSize extra docHeaderSize).nextContent.1 = .ok content) :
    (cursor file 0 docHeaderSize extra docHeaderSize).readBody.2 = some [content] := by
  have size : (cursor file 0 docHeaderSize extra docHeaderSize).pageSize = 0 := rfl
  rw [readBody, if_pos size, readContent_outset head, read]

theorem readBody_none {code : DocStore}
    (read : (cursor file 0 docHeaderSize extra docHeaderSize).nextContent.1 = .error code) :
    (cursor file 0 docHeaderSize extra docHeaderSize).readBody.2 = some [] := by
  have size : (cursor file 0 docHeaderSize extra docHeaderSize).pageSize = 0 := rfl
  rw [readBody, if_pos size, readContent_outset head, read]

theorem readBody_unpaged (fits : event.contentSize ≤ maxNewSize)
    (ending : file.length = docHeaderSize + visible) (here : file.drop docHeaderSize = event.content.take visible) :
    (cursor file 0 docHeaderSize extra docHeaderSize).readBody.2 =
      some (delivered 0 0 [event] visible) := by
  have size := event.content_length
  have left : file.length - docHeaderSize = visible := by omega
  have gap : fill 0 0 event.contentSize = 0 := ite_self 0
  simp only [delivered, gap, Nat.zero_add, Nat.sub_zero]
  by_cases blank : visible ≤ 0
  · have zero : Bytes.value ((file.drop docHeaderSize).take 4) = 0 := by
      rw [here, Nat.le_zero.mp blank]
      rfl
    obtain ⟨after, read, -⟩ := nextContent_blank (by omega) zero
    rw [if_pos blank, readBody_none head (congrArg Prod.fst read)]
  · rw [if_neg blank]
    by_cases cut : visible < event.contentSize
    · rw [if_pos cut]
      rw [← left] at here ⊢
      rcases settle_torn fits (by omega) (by omega) here 0 with
        ⟨stop, nothing⟩ | ⟨content, after, deliver, -, something⟩
      · obtain ⟨code, read⟩ := settle_stop stop
        rw [nothing, readBody_none head read]
      · rw [something, readBody_one head (settle_deliver deliver)]
    · have whole : Bytes.Occurs file docHeaderSize event.content :=
        ⟨[], by rw [append_nil, here, take_of_length_le (by omega)]⟩
      rw [if_neg cut, readBody_one head (congrArg Prod.fst (nextContent_whole fits whole))]

omit head

theorem readBody_scan (page : pageSize < 2 ^ 18) (large : 1024 ≤ pageSize)
    (fits : ∀ event ∈ events, event.contentSize ≤ pageSize) (short : file.length < 2 ^ 31)
    (ending : file.length = docHeaderSize + visible)
    (here : file.drop docHeaderSize = (bytes pageSize 0 events).take visible) :
    (cursor file pageSize docHeaderSize extra docHeaderSize).readBody.2 =
      some (delivered pageSize 0 events visible) := by
  have first : pageOf pageSize 0 = 0 := Nat.zero_div _
  rw [readBody_pages (by omega)]
  have scan : readPages _ (cursor file pageSize docHeaderSize extra (docHeaderSize + 0)) _ = _ :=
    readPages_scan page large fits short ending here
      (show _ ≤ 2 * file.length + wordSize by rw [wordSize]; omega)
  rw [first] at scan
  exact scan

theorem readBody_firstPage (page : pageSize < 2 ^ 18) (large : 1024 ≤ pageSize)
    (fits : ∀ event ∈ events, event.contentSize ≤ pageSize) (long : 2 ^ 31 ≤ file.length)
    (bound : file.length < 2 ^ 32) (head : docHeaderSize < 2 ^ 20) (ending : file.length = docHeaderSize + visible)
    (here : file.drop docHeaderSize = (bytes pageSize 0 events).take visible) :
    ∃ count < events.length, count ≤ whole pageSize 0 events visible ∧
      (cursor file pageSize docHeaderSize extra docHeaderSize).readBody.2 =
      some ((events.take count).map DocEvent.stored) := by
  rw [readBody_pages (by omega)]
  exact readPages_firstPage page large fits long bound head (Nat.zero_le _) ending here
    (show _ ≤ 2 * file.length + wordSize by omega)

end Scan
end Hiview.EventStore.SysEventDocReader
