import Hiview.EventStore.DocWritten
import Hiview.EventStore.DocScan

/-! `SysEventDocWriter` against `SysEventDocReader`: what `Read` delivers of a
document, and of a document that lost its end. -/
namespace Hiview.EventStore
open SysEventDocReader (pageBytes extraOf cursor)
open DocLayout List SysEventDocReader

namespace SysEventDocWriter
variable {file : List UInt8} {rest : List Call} {first : Call}

/-- What `Read` delivers of the first `cut` bytes of a document. -/
theorem Written.read_take (document : Written first rest file)
    (head : (headerBytes first.env first.event).length ≤ cut) (inside : cut ≤ file.length) :
    (¬ first.env.Readable ∧ (new (file.take cut)).read.2 = some []) ∨
    (first.env.Readable ∧ cut < 2 ^ 31 ∧ (new (file.take cut)).read.2 =
      some (delivered (pageBytes first.env first.event) 0
        (first.event :: rest.map Call.event)
        (cut - (headerBytes first.env first.event).length))) ∨
    (2 ^ 31 ≤ cut ∧ ∃ count < (first :: rest).length,
      count ≤ whole (pageBytes first.env first.event) 0
        (first.event :: rest.map Call.event)
        (cut - (headerBytes first.env first.event).length) ∧
      (new (file.take cut)).read.2 =
        some (((first :: rest).take count).map fun call => call.event.stored)) := by
  have small := blockSize_lt first.env
  have length := headerBytes_length first.env first.event
  have bound := document.bound
  have limit : maxNewSize = 395264 := rfl
  have ending : (file.take cut).length = (headerBytes first.env first.event).length +
      (cut - (headerBytes first.env first.event).length) := by
    rw [length_take]
    omega
  have here : Bytes.Occurs (file.take cut) 0 (headerBytes first.env first.event) := by
    rw [Bytes.Occurs, drop_zero, document.layout, take_append, take_of_length_le head]
    exact prefix_append _ _
  have body : (file.take cut).drop (headerBytes first.env first.event).length =
      (bytes (pageBytes first.env first.event) 0
        (first.event :: rest.map Call.event)).take
          (cut - (headerBytes first.env first.event).length) := by
    rw [drop_take]
    rw [document.layout, drop_left]
  by_cases readable : first.env.Readable
  · right
    rw [read_new here readable]
    by_cases unpaged : pageBytes first.env first.event = 0
    · left
      have alone := document.single unpaged
      have size := document.sized first mem_cons_self
      have gap : fill 0 0 first.event.contentSize = 0 := ite_self 0
      subst alone
      rw [unpaged, map_nil] at body ⊢
      simp only [bytes, gap, append_nil, replicate_zero, nil_append] at body
      have whole := congrArg List.length document.layout
      simp only [unpaged, map_nil, bytes, gap, append_nil, replicate_zero, nil_append,
        length_append, DocEvent.content_length] at whole
      exact ⟨readable, by omega, readBody_unpaged (by omega) size ending body⟩
    · have page := pageBytes_lt first.env first.event
      have large := pageBytes_ge unpaged
      have fits : ∀ event ∈ first.event :: rest.map Call.event,
          event.contentSize ≤ pageBytes first.env first.event := by
        rw [← map_cons, forall_mem_map]
        exact document.paged unpaged
      rcases Nat.lt_or_ge cut (2 ^ 31) with short | long
      · exact .inl ⟨readable, short, readBody_scan page large fits (by omega) ending body⟩
      · obtain ⟨count, fewer, inside, read⟩ := readBody_firstPage page large fits
          (by omega) (by omega) (by omega) ending body
        rw [← map_cons, length_map] at fewer
        rw [← map_cons, ← map_take, map_map] at read
        exact .inr ⟨long, count, fewer, inside, read⟩
  · exact .inl ⟨readable, congrArg Prod.snd (read_refused here readable)⟩

/-- The size of the file that calls on an empty one lead to. -/
def documentSize : List Call → Nat
  | [] => 0
  | first :: rest => (headerBytes first.env first.event).length +
    DocLayout.size (pageBytes first.env first.event) 0 (first.event :: rest.map Call.event)

theorem Written.length_eq (document : Written first rest file) : file.length = documentSize (first :: rest) := by
  have body := bytes_length (pageBytes first.env first.event) 0 (first.event :: rest.map Call.event)
  rw [document.layout, length_append, documentSize]
  omega

theorem Written.read_whole (document : Written first rest file) :
    (new file).read.2 =
        some ((first :: rest).map fun call => call.event.stored) ↔
      first.env.Readable ∧ file.length < 2 ^ 31 := by
  have layout := congrArg List.length document.layout
  rw [length_append] at layout
  have read := document.read_take
    (show (headerBytes first.env first.event).length ≤ file.length by omega) (Nat.le_refl _)
  rw [take_length] at read
  rcases read with ⟨unreadable, nothing⟩ | ⟨readable, short, all⟩ | ⟨long, count, fewer, -, front⟩
  · refine ⟨fun same => ?_, fun condition => absurd condition.1 unreadable⟩
    rw [nothing] at same
    cases same
  · have visible : file.length - (headerBytes first.env first.event).length =
        (bytes (pageBytes first.env first.event) 0
          (first.event :: rest.map Call.event)).length := by omega
    rw [visible, delivered_all, ← map_cons, map_map] at all
    exact ⟨fun _ => ⟨readable, short⟩, fun _ => all⟩
  · refine ⟨fun same => ?_, fun condition => by omega⟩
    rw [front] at same
    have lengths := congrArg List.length (Option.some.inj same)
    rw [length_map, length_map, length_take] at lengths
    omega

/-- `Read` on the file of a run of successful writes delivers every content once
and in order, exactly if the reader takes the version strings and the file is
smaller than 2 GiB. -/
theorem read_writeAll_iff {calls : List Call} {file : List UInt8}
    (fits : ∀ call ∈ calls, call.env.pageSize < 256) (written : writeAll [] calls = some file) :
    (new file).read.2 = some (calls.map fun call => call.event.stored) ↔
      (∀ call ∈ calls, call.env.Readable) ∧ documentSize calls < 2 ^ 31 := by
  cases calls with
  | nil =>
    cases written
    exact ⟨fun _ => ⟨nofun, by decide⟩, fun _ => rfl⟩
  | cons first rest =>
    have document := writeAll_written (fits first mem_cons_self) written
    rw [document.read_whole, document.length_eq, forall_mem_cons]
    constructor
    · rintro ⟨readable, short⟩
      exact ⟨⟨readable, fun call member => (document.readable call member).2⟩, short⟩
    · rintro ⟨⟨readable, -⟩, short⟩
      exact ⟨readable, short⟩

def plainCall : Call := ⟨.plain, .plain 1⟩

theorem plainCall_written : ∃ file, writeAll [] [plainCall] = some file := by
  obtain ⟨after, step⟩ : ∃ after, write plainCall.env [] (some plainCall.event) = (.success, after) :=
    ⟨_, write_empty (castInt_of_lt (by decide)) (by decide) (by decide)⟩
  exact ⟨after, by rw [writeAll, step]; rfl⟩

theorem read_writeAll_plainCall : ∃ file, writeAll [] [plainCall] = some file ∧
    ((new file).read.2 = some ([plainCall].map fun call => call.event.stored) ↔
      (∀ call ∈ [plainCall], call.env.Readable) ∧ documentSize [plainCall] < 2 ^ 31) := by
  obtain ⟨file, written⟩ := plainCall_written
  exact ⟨file, written, read_writeAll_iff (by decide) written⟩

/-- Enough writes lead to a file of 2 GiB, of which only the first page is read. -/
theorem read_largeDocument : ∃ calls file, (∀ call ∈ calls, call.env.pageSize < 256) ∧
    (∀ call ∈ calls, call.env.Readable) ∧ writeAll [] calls = some file ∧
    (new file).read.2 ≠ some (calls.map fun call => call.event.stored) := by
  obtain ⟨more, file, written, grown⟩ : ∃ more file,
      writeAll [] (plainCall :: List.replicate more plainCall) = some file ∧ _ :=
    writeAll_replicate (by decide) (by decide) (by decide) (by decide) (by decide +kernel) (2 ^ 31)
  have document := writeAll_written (by decide) written
  have same : ∀ call ∈ plainCall :: List.replicate more plainCall, call = plainCall := by
    rw [forall_mem_cons]
    exact ⟨rfl, fun call member => eq_of_mem_replicate member⟩
  refine ⟨_, file, ?_, ?_, written, ?_⟩
  · intro call member
    rw [same call member]
    decide
  · intro call member
    rw [same call member]
    decide
  · intro all
    have short := (document.read_whole.mp all).2
    have least := DocLayout.size_ge (pageBytes plainCall.env plainCall.event) 0
      (plainCall.event :: (List.replicate more plainCall).map Call.event)
    have length := document.length_eq
    rw [documentSize] at length
    rw [length_cons, length_map, length_replicate] at least
    omega

/-- The front part of a document that ends in the middle of a content whose size,
as far as it is there, is accepted by the reader. -/
def TornVisible (first : Call) (rest : List Call) (cut : Nat) : Prop :=
  ∃ event seen, DocLayout.cutRecord (pageBytes first.env first.event) 0
      (first.event :: rest.map Call.event)
      (cut - (headerBytes first.env first.event).length) = some (event, seen) ∧
    minContentSize ≤ DocLayout.visibleSize event seen

theorem Written.read_take_whole (document : Written first rest file)
    (head : (headerBytes first.env first.event).length ≤ cut) (inside : cut ≤ file.length) :
    (∃ count ≤ whole (pageBytes first.env first.event) 0
        (first.event :: rest.map Call.event) (cut - (headerBytes first.env first.event).length),
      (new (file.take cut)).read.2 =
        some (((first :: rest).take count).map fun call => call.event.stored)) ↔
    ¬ (first.env.Readable ∧ cut < 2 ^ 31 ∧ TornVisible first rest cut) := by
  have contents : ∀ count, ((first :: rest).take count).map (fun call => call.event.stored) =
      ((first.event :: rest.map Call.event).take count).map DocEvent.stored := by
    intro count
    rw [← map_cons, ← map_take, map_map]
    rfl
  rcases document.read_take head inside with
    ⟨unreadable, nothing⟩ | ⟨readable, short, front⟩ | ⟨long, count, -, most, front⟩
  · exact ⟨fun _ torn => unreadable torn.1, fun _ => ⟨0, Nat.zero_le _, nothing⟩⟩
  · have torn := delivered_whole_iff (pageBytes first.env first.event) 0
      (first.event :: rest.map Call.event) (cut - (headerBytes first.env first.event).length)
    simp only [front, Option.some.injEq, contents, torn, readable, short, true_and]
    rfl
  · exact ⟨fun _ torn => by omega, fun _ => ⟨count, most, front⟩⟩

/-- `Read` on a front part of a document delivers only contents that are wholly
there, exactly if the part does not end in a content whose size can be seen. -/
theorem read_tornTail_iff {first : Call} {rest : List Call} {file : List UInt8} {cut : Nat}
    (fits : first.env.pageSize < 256) (written : writeAll [] (first :: rest) = some file)
    (head : (headerBytes first.env first.event).length ≤ cut) (proper : cut < file.length) :
    (∃ count ≤ DocLayout.whole (pageBytes first.env first.event) 0
        (first.event :: rest.map Call.event) (cut - (headerBytes first.env first.event).length),
      (new (file.take cut)).read.2 =
        some (((first :: rest).take count).map fun call => call.event.stored)) ↔
    ¬ (first.env.Readable ∧ cut < 2 ^ 31 ∧ TornVisible first rest cut) :=
  (writeAll_written fits written).read_take_whole head (Nat.le_of_lt proper)

theorem plainCall_length (written : writeAll [] [plainCall] = some file) : file.length = 88 := by
  rw [(writeAll_written (by decide) written).length_eq]
  decide +kernel

theorem read_tornTail_plainCall : ∃ file, writeAll [] [plainCall] = some file ∧ 43 < file.length ∧
    ((∃ count ≤ DocLayout.whole (pageBytes plainCall.env plainCall.event) 0
        (plainCall.event :: [].map Call.event)
        (43 - (headerBytes plainCall.env plainCall.event).length),
      (SysEventDocReader.new (file.take 43)).read.2 =
        some (([plainCall].take count).map fun call => call.event.stored)) ↔
    ¬ (plainCall.env.Readable ∧ 43 < 2 ^ 31 ∧ TornVisible plainCall [] 43)) := by
  obtain ⟨file, written⟩ := plainCall_written
  have proper : 43 < file.length := by
    rw [plainCall_length written]
    decide
  have head : (headerBytes plainCall.env plainCall.event).length ≤ 43 := by decide +kernel
  exact ⟨file, written, proper, read_tornTail_iff (by decide) written head proper⟩

/-- The last byte of a document is missing, and its content is delivered with a
byte that was never read. -/
theorem read_tornTail_lastByte : ∃ file, writeAll [] [plainCall] = some file ∧ 87 < file.length ∧
    ¬ ∃ count ≤ DocLayout.whole (pageBytes plainCall.env plainCall.event) 0
        (plainCall.event :: [].map Call.event)
        (87 - (headerBytes plainCall.env plainCall.event).length),
      (SysEventDocReader.new (file.take 87)).read.2 =
        some (([plainCall].take count).map fun call => call.event.stored) := by
  obtain ⟨file, written⟩ := plainCall_written
  have length := plainCall_length written
  have document := writeAll_written (by decide) written
  have torn : TornVisible plainCall [] 87 := ⟨.plain 1, 46, by decide +kernel, by decide +kernel⟩
  refine ⟨file, written, by omega, fun kept => ?_⟩
  exact (document.read_take_whole (by decide +kernel) (by omega)).mp kept
    ⟨by decide, by decide, torn⟩

end SysEventDocWriter
end Hiview.EventStore
