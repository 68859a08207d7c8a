import Hiview.EventStore.DocHead

/-! What a file holds after a run of successful writes: the header of the first
call and the layout of all events. One write extends the layout by one event. -/
namespace Hiview.EventStore.SysEventDocWriter
open SysEventDocReader (pageBytes)
open List hiding count head length
open DocLayout (bytes fill)
open SysEventDocReader (dataFmtVersion new_written pageBytes_lt readFileSize_new readHeader_new
  readHeader_refused readPageSize readPageSize_new)

/-- `file` is what the calls left, the first of which wrote the header. -/
structure Written (first : Call) (rest : List Call) (file : List UInt8) : Prop where
  layout : file = headerBytes first.env first.event ++
    DocLayout.bytes (pageBytes first.env first.event) 0
      (first.event :: rest.map Call.event)
  single : pageBytes first.env first.event = 0 → rest = []
  paged : pageBytes first.env first.event ≠ 0 →
    ∀ call ∈ first :: rest, call.event.contentSize ≤ pageBytes first.env first.event
  sized : ∀ call ∈ first :: rest, call.event.contentSize ≤ maxNewSize
  readable : ∀ call ∈ rest, first.env.Readable ∧ call.env.Readable
  bound : file.length < 2 ^ 32

variable {event : DocEvent}

theorem contentSize_le (accepted : getContentSize event = .success) : event.contentSize ≤ maxNewSize := by
  have most : ¬ (event.rawData.length < rawDataOffset ∨ event.rawData.length > maxNewSize) := by
    intro refused
    rw [getContentSize, if_pos refused] at accepted
    cases accepted
  rw [DocEvent.contentSize, rawDataOffset, hiviewBlockSize, seqSize, crcSize] at *
  omega

variable {file after : List UInt8} {env : Environment}

theorem write_cases (written : write env file (some event) = (.success, after)) :
    event.contentSize ≤ maxNewSize ∧ ¬ castInt file.length < 0 ∧
      ((castInt file.length = 0 ∧ writeFirst env file event = (.success, after)) ∨
        (castInt file.length ≠ 0 ∧ writeNext env file event = (.success, after))) := by
  rw [write] at written
  split at written
  · case isTrue refused => exact absurd (congrArg Prod.fst written) refused
  · case isFalse accepted =>
    simp only [readFileSize_new] at written
    split at written
    · cases written
    · case isFalse negative =>
      refine ⟨contentSize_le (not_not.mp accepted), negative, ?_⟩
      split at written
      · case isTrue empty => exact .inl ⟨empty, written⟩
      · case isFalse filled => exact .inr ⟨filled, written⟩

theorem writeFirst_success (written : writeFirst env file event = (.success, after)) :
    env.pageSize ≠ 0 ∧ after = file ++ headerBytes env event ++ event.content := by
  rw [writeFirst, writeHeader] at written
  by_cases unset : env.pageSize = 0
  · rw [if_pos unset] at written
    cases written
  · rw [if_neg unset] at written
    exact ⟨unset, (congrArg Prod.snd written).symm⟩

section Document
variable {env : Environment} {event : DocEvent} {file body after : List UInt8}

section
variable (document : file = headerBytes env event ++ body) (short : file.length < 2 ^ 31)
include document short

variable {next : DocEvent}

theorem writePage_document :
    writePage ((headerBytes env event).length % wordSize) (castInt file.length)
      (pageBytes env event) file next = (.success, file ++ (List.replicate
        (fill (pageBytes env event) body.length next.contentSize) 0 ++ next.content)) := by
  have page := pageBytes_lt env event
  have limit : maxNewSize = 395264 := rfl
  have total : file.length = (headerBytes env event).length + body.length := by
    rw [document, length_append]
  have remain : getCurrPageRemainSize ((headerBytes env event).length % wordSize)
      (castInt file.length) (pageBytes env event) =
      pageBytes env event - body.length % pageBytes env event := by
    have wrap : (file.length + wordSize - (headerBytes env event).length) % wordSize =
        body.length := by
      rw [wordSize]
      omega
    rw [getCurrPageRemainSize, castInt_of_lt short, castUint32_of_lt (by omega),
      Nat.mod_eq_of_lt (show (headerBytes env event).length < wordSize by rw [wordSize]; omega), wrap]
  rw [writePage, remain, fill]
  split
  · rw [fillCurrPageWithZero, if_neg (by omega), ← append_assoc]
    rfl
  · rfl

theorem writeNext_document {env' : Environment} (readable : env.Readable) :
    writeNext env' file next =
      if env.sysVersion.text ≠ env'.sysVersion.text ∨
          env.patchVersion.text ≠ env'.patchVersion.text ∨
          pageBytes env event < next.contentSize then (.newFile, file)
      else (.success, file ++ (List.replicate
        (fill (pageBytes env event) body.length next.contentSize) 0 ++ next.content)) := by
  have least := next.contentSize_ge
  have here : Bytes.Occurs file 0 (headerBytes env event) := by
    rw [document]
    exact prefix_append _ _
  rw [writeNext, readHeader_new here readable]
  simp only [readPageSize_new here readable, docHeader_blockSize,
    readFileSize_new, writePage_document document short]
  have version : ¬ (docHeader env event).version ≠ currentVersion := fun differs => differs rfl
  by_cases versions : env.sysVersion.text ≠ env'.sysVersion.text ∨
      env.patchVersion.text ≠ env'.patchVersion.text
  · rw [if_pos (.inr versions), if_pos (versions.imp_right Or.inl)]
  · rw [if_neg (fun differs => differs.elim version versions)]
    by_cases room : pageBytes env event < next.contentSize
    · rw [if_pos (.inr room), if_pos (.inr (.inr room))]
    · rw [if_neg (by omega), if_neg]
      rintro (sys | patch | small)
      · exact versions (.inl sys)
      · exact versions (.inr patch)
      · exact room small

/-- A write to a document succeeds only for its own versions and for contents
that fit its pages; it then extends the layout. -/
theorem writeNext_success {env' : Environment} (written : writeNext env' file next = (.success, after)) :
    env.Readable ∧ env'.Readable ∧ next.contentSize ≤ pageBytes env event ∧
    after = file ++ (List.replicate
      (fill (pageBytes env event) body.length next.contentSize) 0 ++ next.content) := by
  by_cases readable : env.Readable
  · rw [writeNext_document document short readable] at written
    split at written
    · cases written
    · rename_i agree
      push Not at agree
      have same : env'.Readable := by
        rw [Environment.Readable, ← agree.1, ← agree.2.1]
        exact readable
      exact ⟨readable, same, agree.2.2, (congrArg Prod.snd written).symm⟩
  · have here : Bytes.Occurs file 0 (headerBytes env event) := by
      rw [document]
      exact prefix_append _ _
    have fresh := new_written here
    obtain ⟨reader, pos, refused, stream, version⟩ :=
      readHeader_refused here readable
        (congrArg SysEventDocReader.stream fresh)
        (congrArg dataFmtVersion fresh)
    obtain ⟨again, -, refusedAgain, -⟩ := readHeader_refused here readable stream version
    have size : reader.readPageSize = (.errorInvalid, 0) := by
      rw [readPageSize, refusedAgain]
    rw [writeNext, refused] at written
    simp only [size] at written
    split at written
    · cases written
    · cases written

end

end Document

variable {call : Call}

variable (fits : call.env.pageSize < 256)
include fits

theorem pageBytes_first :
    pageBytes call.env call.event = 0 ∨
      call.event.contentSize ≤ pageBytes call.env call.event := by
  have small : call.env.pageSize.toNat < 256 := UInt32.lt_iff_toNat_lt.mp fits
  rw [pageBytes, storedPageSize]
  split
  · exact .inl (Nat.zero_mul _)
  · have stored : call.env.pageSize.toUInt8.toNat = call.env.pageSize.toNat := by
      rw [UInt32.toNat_toUInt8, Nat.mod_eq_of_lt small]
    have whole : call.env.pageSize.toNat * numOfBytesInKb % wordSize =
        call.env.pageSize.toNat * numOfBytesInKb :=
      Nat.mod_eq_of_lt (by rw [numOfBytesInKb, wordSize]; omega)
    rw [stored]
    omega

theorem bytes_first :
    bytes (pageBytes call.env call.event) 0 [call.event] = call.event.content := by
  have gap : fill (pageBytes call.env call.event) 0 call.event.contentSize = 0 := by
    rcases pageBytes_first fits with unpaged | paged
    · rw [unpaged]
      exact ite_self 0
    · exact if_neg (by rw [Nat.zero_mod]; omega)
  rw [bytes, bytes, gap, append_nil]
  rfl

theorem written_first
    (written : write call.env [] (some call.event) = (.success, file)) : Written call [] file := by
  have head := blockSize_lt call.env
  have length := headerBytes_length call.env call.event
  have limit : maxNewSize = 395264 := rfl
  obtain ⟨size, -, ⟨-, first⟩ | ⟨nonempty, -⟩⟩ := write_cases written
  · obtain ⟨-, layout⟩ := writeFirst_success first
    refine ⟨?_, fun _ => rfl, ?_, ?_, nofun, ?_⟩
    · rw [layout, map_nil, bytes_first fits, nil_append]
    · exact fun paged => forall_mem_singleton.mpr ((pageBytes_first fits).resolve_left paged)
    · exact forall_mem_singleton.mpr size
    · rw [layout, length_append, nil_append, DocEvent.content_length]
      omega
  · exact absurd (castInt_of_lt (by decide)) nonempty

omit fits

variable {first : Call} {rest : List Call}

theorem Written.write (document : Written first rest file)
    (written : write call.env file (some call.event) = (.success, after)) : Written first (rest ++ [call]) after := by
  have least := call.event.contentSize_ge
  have page := pageBytes_lt first.env first.event
  obtain ⟨size, nonneg, branch⟩ := write_cases written
  have short : file.length < 2 ^ 31 := by
    by_contra long
    exact nonneg (castInt_of_ge (Nat.not_lt.mp long) document.bound)
  rcases branch with ⟨empty, -⟩ | ⟨-, next⟩
  · have length := headerBytes_length first.env first.event
    rw [castInt_of_lt short, document.layout, length_append] at empty
    omega
  · obtain ⟨readable, same, fits, extended⟩ := writeNext_success document.layout short next
    have body := DocLayout.bytes_length (pageBytes first.env first.event) 0
      (first.event :: rest.map Call.event)
    rw [Nat.zero_add] at body
    rw [body] at extended
    refine ⟨?_, ?_, ?_, ?_, ?_, ?_⟩
    · rw [extended, document.layout, map_append, append_assoc, ← DocLayout.bytes_append]
      rfl
    · omega
    · exact fun paged => forall_mem_append.mpr ⟨document.paged paged, forall_mem_singleton.mpr fits⟩
    · exact forall_mem_append.mpr ⟨document.sized, forall_mem_singleton.mpr size⟩
    · exact forall_mem_append.mpr ⟨document.readable, forall_mem_singleton.mpr ⟨readable, same⟩⟩
    · have gap : fill (pageBytes first.env first.event)
          (DocLayout.size (pageBytes first.env first.event) 0 (first.event :: rest.map Call.event))
          call.event.contentSize ≤ pageBytes first.env first.event := by
        rw [fill]
        split <;> omega
      rw [extended, length_append, length_append, length_replicate, DocEvent.content_length]
      omega

theorem Written.writeAll {calls : List Call} (document : Written first rest file)
    (written : writeAll file calls = some after) : Written first (rest ++ calls) after := by
  induction calls generalizing rest file with
  | nil =>
    cases written
    rw [append_nil]
    exact document
  | cons call calls ih =>
    rw [SysEventDocWriter.writeAll] at written
    split at written
    · rename_i next step
      have extended := ih (document.write step) written
      rwa [append_assoc] at extended
    · cases written

theorem writeAll_written (fits : first.env.pageSize < 256) (written : writeAll [] (first :: rest) = some file) :
    Written first rest file := by
  rw [writeAll] at written
  split at written
  · rename_i next step
    exact (written_first fits step).writeAll written
  · cases written

theorem Written.write_success (document : Written first rest file) (short : file.length < 2 ^ 31)
    (readable : first.env.Readable) (same : call.env = first.env) (accepted : getContentSize call.event = .success)
    (room : call.event.contentSize ≤ pageBytes first.env first.event) :
    ∃ after, SysEventDocWriter.write call.env file (some call.event) = (.success, after) := by
  have length := headerBytes_length first.env first.event
  have total := congrArg List.length document.layout
  rw [length_append] at total
  have agree : ¬ (first.env.sysVersion.text ≠ first.env.sysVersion.text ∨
      first.env.patchVersion.text ≠ first.env.patchVersion.text ∨
      pageBytes first.env first.event < call.event.contentSize) := by
    rintro (sys | patch | small)
    · exact sys rfl
    · exact patch rfl
    · omega
  have nonneg : ¬ castInt file.length < 0 := by
    rw [castInt_of_lt short]
    omega
  have nonempty : castInt file.length ≠ 0 := by
    rw [castInt_of_lt short]
    omega
  rw [SysEventDocWriter.write, if_neg (fun refused => refused accepted)]
  simp only [readFileSize_new]
  rw [if_neg nonneg, if_neg nonempty, writeNext_document document.layout short readable, same,
    if_neg agree]
  exact ⟨_, rfl⟩

theorem writeAll_append {calls more : List Call} {middle : List UInt8} (first : writeAll file calls = some middle)
    (second : writeAll middle more = some after) : writeAll file (calls ++ more) = some after := by
  induction calls generalizing file with
  | nil =>
    cases first
    exact second
  | cons call rest ih =>
    rw [cons_append, writeAll]
    rw [writeAll] at first
    split at first
    · exact ih first
    · cases first

theorem write_empty (empty : castInt file.length = 0) (unset : env.pageSize ≠ 0)
    (accepted : getContentSize event = .success) :
    write env file (some event) = (.success, file ++ headerBytes env event ++ event.content) := by
  have nonneg : ¬ castInt file.length < 0 := by
    rw [empty]
    exact Int.lt_irrefl 0
  rw [write, if_neg (fun refused => refused accepted)]
  simp only [readFileSize_new]
  rw [if_neg nonneg, if_pos empty, writeFirst, writeHeader, if_neg unset]
  rfl

theorem writeAll_replicate (fits : call.env.pageSize < 256) (unset : call.env.pageSize ≠ 0)
    (readable : call.env.Readable) (accepted : getContentSize call.event = .success)
    (room : call.event.contentSize ≤ pageBytes call.env call.event) (count : Nat) :
    ∃ more file, writeAll [] (call :: List.replicate more call) = some file ∧
      (more = count ∨ 2 ^ 31 ≤ file.length) := by
  induction count with
  | zero =>
    refine ⟨0, headerBytes call.env call.event ++ call.event.content, ?_, .inl rfl⟩
    have empty : castInt (([] : List UInt8).length : Nat) = 0 := castInt_of_lt (by decide)
    have first := write_empty empty unset accepted
    rw [nil_append] at first
    rw [replicate_zero, writeAll, first]
    rfl
  | succ count ih =>
    obtain ⟨more, file, written, progress⟩ := ih
    by_cases long : 2 ^ 31 ≤ file.length
    · exact ⟨more, file, written, .inr long⟩
    · obtain ⟨after, next⟩ := (writeAll_written fits written).write_success (Nat.not_le.mp long)
        readable rfl accepted room
      have step : writeAll file [call] = some after := by
        rw [writeAll, next]
        rfl
      refine ⟨more + 1, after, ?_, .inl (by omega)⟩
      rw [replicate_succ', ← cons_append]
      exact writeAll_append written step

end Hiview.EventStore.SysEventDocWriter
