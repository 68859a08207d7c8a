import Hiview.EventStore.SysEventDoc
import Hiview.Lib.Transition

/-! The db files of one event name over runs of inserts and restarts: whether
every event lies between the sequence of its file and that of the next one.
This holds as long as an insert that looks for a file in the directory does not
find an older one than the newest. -/
namespace Hiview.EventStore
open List

namespace DbFile

def seq (file : DbFile) : Int :=
  (EventDbFileUtil.parseSeq (extractFileName file.path)).getD 0

/-- No two files have the same sequence, and an event lies between the sequence
of its file and every greater one. -/
structure Ordered (files : List DbFile) : Prop where
  distinct : (files.map seq).Nodup
  low : ∀ file ∈ files, ∀ num ∈ file.seqs, file.seq ≤ num
  high : ∀ file ∈ files, ∀ other ∈ files, file.seq < other.seq → ∀ num ∈ file.seqs, num < other.seq

/-- The path is that of the file with the greatest sequence. -/
def Newest (files : List DbFile) (path : List UInt8) : Prop :=
  ∃ file ∈ files, file.path = path ∧ ∀ other ∈ files, other.seq ≤ file.seq

/-- No file has a longer path, or a greater one of the same length. -/
def Greatest (files : List DbFile) (path : List UInt8) : Prop :=
  ∀ other ∈ files, SysEventDoc.precedes path other.path = false

variable {files : List DbFile}

theorem seq_of_path {first second : DbFile} (same : first.path = second.path) :
    first.seq = second.seq := by
  rw [seq, seq, same]

theorem Ordered.grow (ordered : Ordered files) (kept : ∀ file, (change file).path = file.path)
    (grown : ∀ file ∈ files, ∀ old ∈ (change file).seqs,
      old ∈ file.seqs ∨ (old = num ∧ Newest files file.path)) (above : ∀ file ∈ files, file.seq ≤ num) :
    Ordered (files.map change) := by
  have same : ∀ file, (change file).seq = file.seq := fun file => seq_of_path (kept file)
  refine ⟨?_, ?_, ?_⟩
  · rw [map_map]
    have seqs : seq ∘ change = seq := funext same
    rw [seqs]
    exact ordered.distinct
  · rw [forall_mem_map]
    intro file member old stored
    rw [same]
    rcases grown file member old stored with before | ⟨rfl, -⟩
    · exact ordered.low file member old before
    · exact above file member
  · simp only [forall_mem_map, same]
    intro file member other otherMember less old stored
    rcases grown file member old stored with before | ⟨-, newest, found, path, greatest⟩
    · exact ordered.high file member other otherMember less old before
    · have bound := greatest other otherMember
      rw [seq_of_path path] at bound
      omega

theorem Ordered.create (ordered : Ordered files) (empty : file.seqs = [])
    (above : ∀ old ∈ files, old.seq < file.seq ∧ ∀ num ∈ old.seqs, num < file.seq) :
    Ordered (files ++ [file]) := by
  refine ⟨?_, ?_, ?_⟩
  · rw [map_append, map_singleton, nodup_append]
    refine ⟨ordered.distinct, nodup_singleton _, ?_⟩
    intro num member last single
    obtain ⟨old, found, rfl⟩ := mem_map.mp member
    rw [mem_singleton.mp single]
    exact Int.ne_of_lt (above old found).1
  · refine forall_mem_append.mpr ⟨ordered.low, forall_mem_singleton.mpr ?_⟩
    rw [empty]
    exact forall_mem_nil _
  · intro old member other otherMember less num stored
    rcases mem_append.mp member with earlier | last
    · rcases mem_append.mp otherMember with otherEarlier | otherLast
      · exact ordered.high old earlier other otherEarlier less num stored
      · rw [mem_singleton.mp otherLast]
        exact (above old earlier).2 num stored
    · rw [mem_singleton.mp last, empty] at stored
      cases stored

end DbFile
namespace SysEventDoc
open DbFile (Ordered Newest Greatest)

variable {key : DocKey} {files : List DbFile} {last : Int}

theorem seq_le (event : SysEvent) : event.seq ≤ 9223372036854775807 := by
  have bound := event.doc.eventSeq.toInt_lt
  rw [SysEvent.seq]
  omega

/-- A path as `CreateCurFile` builds it, with a positive sequence. -/
def Named (key : DocKey) (path : List UInt8) : Prop :=
  ∃ type level interval, ∃ num : Int, (0 < num ∧ num ≤ 9223372036854775807) ∧
    path = key.dir ++ 47 :: dbFileName key.name type level num interval

variable {event : SysEvent} {level : EventLevel}

theorem filePath_named {type : Nat} (positive : 0 < event.seq) : Named key (filePath key type level event) :=
  ⟨type, level, event.reportInterval, event.seq,
    ⟨positive, seq_le event⟩, rfl⟩

theorem extractFileName_dbFileName {type : Nat} (positive : 0 < num) (interval : Int16) :
    extractFileName (key.dir ++ 47 :: dbFileName key.name type level num interval) =
      dbFileName key.name type level num interval :=
  extractFileName_path (fun member =>
    (dbFileName_plain key.name type level interval (Int.le_of_lt positive) 47 member).2 rfl) _

theorem seq_filePath {type : Nat} (positive : 0 < event.seq) (bytes : List UInt8) (seqs : List Int) :
    DbFile.seq ⟨filePath key type level event, bytes, seqs⟩ = event.seq := by
  rw [DbFile.seq, filePath, extractFileName_dbFileName positive,
    parseSeq_dbFileName key.name type level event.reportInterval positive (seq_le event), Option.getD_some]

variable {path : List UInt8}

theorem Named.contains (named : Named key path) : Text.contains path (47 :: key.name.text ++ [45]) = true := by
  obtain ⟨type, level, interval, num, -, rfl⟩ := named
  have middle := Text.contains_middle key.dir (47 :: key.name.text ++ [45])
    (Numeral.toString type ++ 45 :: (level.text ++ 45 :: (Numeral.toString num ++
      45 :: (Numeral.toString interval.toInt ++ Numeral.ascii ".db"))))
  rw [dbFileName]
  simpa only [append_assoc, cons_append, nil_append] using middle

theorem precedes_trans (one : precedes first second = true) (two : precedes second third = true) :
    precedes first third = true := by
  simp only [precedes, Bool.or_eq_true, Bool.and_eq_true, decide_eq_true_eq] at *
  rcases one with ⟨length, less⟩ | shorter
  · rcases two with ⟨length', less'⟩ | shorter'
    · exact .inl ⟨length'.trans length, List.lt_trans less less'⟩
    · exact .inr (by omega)
  · rcases two with ⟨length', -⟩ | shorter'
    · exact .inr (by omega)
    · exact .inr (by omega)

theorem precedes_irrefl (path : List UInt8) : precedes path path = false := by
  rw [precedes, decide_eq_false (List.lt_irrefl path), decide_eq_false (Nat.lt_irrefl _),
    Bool.and_false, Bool.or_false]

theorem precedes_asymm (less : precedes first second = true) : precedes second first = false := by
  rw [← Bool.not_eq_true]
  intro back
  have loop := precedes_trans less back
  rw [precedes_irrefl] at loop
  cases loop

variable {file : DbFile}

theorem pickFile_named (named : Named key file.path) (curFile : List UInt8) :
    pickFile key curFile file = if precedes curFile file.path then file.path else curFile := by
  rw [pickFile, named.contains, Bool.true_and]

variable (named : ∀ file ∈ files, Named key file.path)
include named

theorem pickFile_fold (start : List UInt8) :
    (files.foldl (pickFile key) start = start ∨
      precedes start (files.foldl (pickFile key) start) = true ∧
        ∃ file ∈ files, files.foldl (pickFile key) start = file.path) ∧
    Greatest files (files.foldl (pickFile key) start) := by
  induction files generalizing start with
  | nil => exact ⟨.inl rfl, nofun⟩
  | cons file rest ih =>
    rw [forall_mem_cons] at named
    rw [foldl_cons, pickFile_named named.1]
    by_cases greater : precedes start file.path = true
    · rw [if_pos greater]
      obtain ⟨origin, greatest⟩ := ih named.2 file.path
      have above : precedes (rest.foldl (pickFile key) file.path) file.path = false := by
        rcases origin with same | ⟨later, -⟩
        · rw [same, precedes_irrefl]
        · exact precedes_asymm later
      refine ⟨.inr ⟨?_, ?_⟩, forall_mem_cons.mpr ⟨above, greatest⟩⟩
      · rcases origin with same | ⟨later, -⟩
        · rw [same]
          exact greater
        · exact precedes_trans greater later
      · rcases origin with same | ⟨-, found, member, path⟩
        · exact ⟨file, mem_cons_self, same⟩
        · exact ⟨found, mem_cons_of_mem _ member, path⟩
    · rw [if_neg greater]
      obtain ⟨origin, greatest⟩ := ih named.2 start
      have above : precedes (rest.foldl (pickFile key) start) file.path = false := by
        rw [← Bool.not_eq_true]
        intro less
        rcases origin with same | ⟨later, -⟩
        · rw [same] at less
          exact greater less
        · exact greater (precedes_trans later less)
      refine ⟨?_, forall_mem_cons.mpr ⟨above, greatest⟩⟩
      rcases origin with same | ⟨later, found, member, path⟩
      · exact .inl same
      · exact .inr ⟨later, found, mem_cons_of_mem _ member, path⟩

theorem getCurFile_spec
    (found : getCurFile key files ≠ []) :
    (∃ file ∈ files, getCurFile key files = file.path) ∧ Greatest files (getCurFile key files) := by
  obtain ⟨none | ⟨-, origin⟩, greatest⟩ := pickFile_fold named []
  · exact absurd none found
  · exact ⟨origin, greatest⟩

omit named

/-- What holds of the files of a name between two inserts. -/
structure Shelf (key : DocKey) (files : List DbFile) (last : Int) : Prop where
  ordered : Ordered files
  named : ∀ file ∈ files, Named key file.path
  bounded : ∀ file ∈ files, file.seq ≤ last ∧ ∀ num ∈ file.seqs, num ≤ last

theorem Shelf.mono (shelf : Shelf key files last) (le : last ≤ later) : Shelf key files later :=
  ⟨shelf.ordered, shelf.named, fun file member =>
    ⟨Int.le_trans (shelf.bounded file member).1 le,
      fun num stored => Int.le_trans ((shelf.bounded file member).2 num stored) le⟩⟩

theorem Shelf.unique (shelf : Shelf key files last) {first second : DbFile} (one : first ∈ files)
    (two : second ∈ files) (same : first.path = second.path) : first = second :=
  inj_on_of_nodup_map shelf.ordered.distinct one two (DbFile.seq_of_path same)

theorem fileOf_some (found : fileOf files path = some file) : file ∈ files ∧ file.path = path := by
  have same := List.find?_some found
  exact ⟨mem_of_find?_eq_some found, of_decide_eq_true same⟩

theorem Shelf.fileOf (shelf : Shelf key files last) (member : file ∈ files) :
    SysEventDoc.fileOf files file.path = some file := by
  cases found : SysEventDoc.fileOf files file.path with
  | none =>
    have absent := List.find?_eq_none.mp found file member
    exact absurd (decide_eq_true rfl) absent
  | some other =>
    obtain ⟨there, same⟩ := fileOf_some found
    rw [shelf.unique there member same]

theorem replaced_path (path bytes : List UInt8) (seqs : List Int) (old : DbFile) :
    (replaced path bytes seqs old).path = old.path := by
  rw [replaced]
  split
  · rename_i same
    exact same.symm
  · rfl

theorem Newest.map {change : DbFile → DbFile} (newest : Newest files path)
    (kept : ∀ file, (change file).path = file.path) : Newest (files.map change) path := by
  obtain ⟨file, member, same, greatest⟩ := newest
  refine ⟨change file, mem_map_of_mem member, (kept file).trans same, ?_⟩
  rw [forall_mem_map]
  intro other found
  rw [DbFile.seq_of_path (kept other), DbFile.seq_of_path (kept file)]
  exact greatest other found

theorem Shelf.replace (shelf : Shelf key files num) (member : file ∈ files) (newest : Newest files file.path)
    (grown : ∀ old ∈ seqs, old ∈ file.seqs ∨ old = num) :
    Shelf key (files.map (replaced file.path bytes seqs)) num := by
  have stored : ∀ other ∈ files, ∀ old ∈ (replaced file.path bytes seqs other).seqs,
      old ∈ other.seqs ∨ (old = num ∧ Newest files other.path) := by
    intro other found old stored
    rw [replaced] at stored
    split at stored
    · rename_i same
      rw [shelf.unique found member same]
      exact (grown old stored).imp_right fun last => ⟨last, newest⟩
    · exact .inl stored
  refine ⟨shelf.ordered.grow (replaced_path _ _ _) stored fun other found =>
    (shelf.bounded other found).1, ?_, ?_⟩
  · rw [forall_mem_map]
    intro other found
    rw [replaced_path]
    exact shelf.named other found
  · rw [forall_mem_map]
    intro other found
    rw [DbFile.seq_of_path (replaced_path _ _ _ other)]
    refine ⟨(shelf.bounded other found).1, fun old member => ?_⟩
    rcases stored other found old member with before | ⟨rfl, -⟩
    · exact (shelf.bounded other found).2 old before
    · exact Int.le_refl _

theorem writeFile_shelf (env : StoreEnv) (shelf : Shelf key files event.seq) (newest : Newest files path) :
    Shelf key (writeFile env files path event).2 event.seq ∧
      Newest (writeFile env files path event).2 path := by
  obtain ⟨file, member, rfl, -⟩ := id newest
  rw [writeFile, shelf.fileOf member]
  refine ⟨shelf.replace member newest ?_, Newest.map newest (replaced_path _ _ _)⟩
  intro old stored
  split at stored
  · rcases mem_append.mp stored with before | last
    · exact .inl before
    · exact .inr (mem_singleton.mp last)
  · exact .inl stored

variable {env : StoreEnv}

theorem writeFile_refused (shelf : Shelf key files last) (newest : Newest files path)
    (refused : (writeFile env files path event).1 ≠ .success) : Shelf key (writeFile env files path event).2 last := by
  obtain ⟨file, member, rfl, -⟩ := id newest
  rw [writeFile, shelf.fileOf member] at refused ⊢
  refine shelf.replace member newest ?_
  rw [if_neg refused]
  exact fun old stored => .inl stored

variable {doc : SysEventDoc}

/-- A file created for an event above everything stored becomes the newest. -/
theorem createCurFile_shelf (shelf : Shelf key files last) (later : last < event.seq) (positive : 0 < event.seq) :
    Shelf key (createCurFile key doc files event).2 event.seq ∧
      Newest (createCurFile key doc files event).2 (createCurFile key doc files event).1.curFile := by
  have path : ∀ bytes seqs, DbFile.seq ⟨filePath key doc.type doc.level event, bytes, seqs⟩ =
      event.seq := seq_filePath positive
  have absent : ¬ (fileOf files (filePath key doc.type doc.level event)).isSome := by
    intro found
    obtain ⟨file, found⟩ := Option.isSome_iff_exists.mp found
    obtain ⟨member, same⟩ := fileOf_some found
    have bound := (shelf.bounded file member).1
    have num : file.seq = event.seq := (DbFile.seq_of_path same).trans (path [] [])
    omega
  simp only [createCurFile, createFile, if_neg absent]
  have above : ∀ old ∈ files, old.seq < event.seq ∧ ∀ num ∈ old.seqs, num < event.seq := by
    intro old member
    have bound := shelf.bounded old member
    exact ⟨by omega, fun num stored => by have le := bound.2 num stored; omega⟩
  refine ⟨⟨shelf.ordered.create rfl ?_, ?_, ?_⟩, _, mem_append_right _ mem_cons_self, rfl, ?_⟩
  · rw [path]
    exact above
  · exact forall_mem_append.mpr ⟨shelf.named, forall_mem_singleton.mpr (filePath_named positive)⟩
  · refine forall_mem_append.mpr ⟨fun file earlier => ?_, forall_mem_singleton.mpr ⟨(path _ _).le, nofun⟩⟩
    exact ⟨Int.le_of_lt (above file earlier).1, fun num stored => Int.le_of_lt ((above file earlier).2 num stored)⟩
  · rw [path]
    exact forall_mem_append.mpr ⟨fun file earlier => Int.le_of_lt (above file earlier).1,
      forall_mem_singleton.mpr (path _ _).le⟩

theorem createCurFile_again (there : ∃ file ∈ files, file.path = filePath key doc.type doc.level event) :
    createCurFile key doc files event =
      ({ doc with curFile := filePath key doc.type doc.level event }, files) := by
  obtain ⟨file, member, path⟩ := there
  have found : (fileOf files (filePath key doc.type doc.level event)).isSome := by
    rw [fileOf, List.find?_isSome]
    exact ⟨file, member, decide_eq_true path⟩
  rw [createCurFile, createFile, if_pos found]

/-- The greatest path does not lead an insert to an older file: it belongs to the
newest file, or to one that is not taken. -/
def Leads (env : StoreEnv) (doc : SysEventDoc) (files : List DbFile) (event : SysEvent) : Prop :=
  ∀ file ∈ files, Greatest files file.path →
    EventDbFileUtil.isMatchedDbFilePath file.path event.reportInterval = true →
    (doc.consulting event).isFileFull env files file.path = false → Newest files file.path

section
variable (shelf : Shelf key files last) (later : last < event.seq) (positive : 0 < event.seq)
  (current : doc.writer = true → Newest files doc.curFile)
  (leads : (doc.writer = false ∨ doc.isNeedUpdateCurFile env files = true) → Leads env doc files event)
include shelf later positive current leads

/-- The file an insert is about to write to is the newest, and if it was created
for this event, it is called accordingly. -/
theorem initWriter_shelf :
    Shelf key (initWriter key env doc files event).2 event.seq ∧
      Newest (initWriter key env doc files event).2 (initWriter key env doc files event).1.curFile ∧
      (initWriter key env doc files event).1.writer = true ∧
      ((initWriter key env doc files event).2 = files ∨
        (initWriter key env doc files event).1.curFile =
          filePath key (initWriter key env doc files event).1.type
            (initWriter key env doc files event).1.level event) := by
  rw [initWriter]
  split
  · rename_i consult
    rw [Bool.or_eq_true, Bool.not_eq_true'] at consult
    simp only [updateCurFile]
    split
    · obtain ⟨created, newest⟩ :
          Shelf key (createCurFile key (doc.consulting event) files event).2 event.seq ∧ _ :=
        createCurFile_shelf shelf later positive
      exact ⟨created, newest, trivial, .inr rfl⟩
    · rename_i taken
      simp only [Bool.or_eq_true, Bool.not_eq_true', decide_eq_true_eq, not_or,
        Bool.not_eq_false, Bool.not_eq_true] at taken
      obtain ⟨⟨found, matched⟩, room⟩ := taken
      obtain ⟨⟨file, member, path⟩, greatest⟩ := getCurFile_spec shelf.named found
      rw [path] at greatest matched room ⊢
      exact ⟨shelf.mono (Int.le_of_lt later), leads consult file member greatest matched room, trivial,
        .inl rfl⟩
  · rename_i keep
    simp only [Bool.or_eq_true, not_or, Bool.not_eq_true', Bool.not_eq_false] at keep
    exact ⟨shelf.mono (Int.le_of_lt later), current keep.1, keep.1, .inl rfl⟩

theorem insert_shelf :
    Shelf key (insert key env doc files (some event)).2.2 event.seq ∧
      Newest (insert key env doc files (some event)).2.2
        (insert key env doc files (some event)).2.1.curFile ∧
      (insert key env doc files (some event)).2.1.writer = true := by
  have begun := initWriter_shelf shelf later positive current leads
  simp only [insert]
  generalize initWriter key env doc files event = start at begun ⊢
  obtain ⟨inited, newest, writer, origin⟩ := begun
  have first := writeFile_shelf env inited newest
  split
  · rename_i refused
    have created : Shelf key (createCurFile key start.1
          (writeFile env start.2 start.1.curFile event).2 event).2 event.seq ∧
        Newest (createCurFile key start.1 (writeFile env start.2 start.1.curFile event).2 event).2
          (createCurFile key start.1
            (writeFile env start.2 start.1.curFile event).2 event).1.curFile := by
      rcases origin with same | name
      · rw [same] at newest refused ⊢
        have kept := writeFile_refused shelf newest (by rw [refused]; decide)
        exact createCurFile_shelf kept later positive
      · obtain ⟨file, member, path, -⟩ := first.2
        rw [createCurFile_again ⟨file, member, path.trans name⟩, ← name]
        exact first
    have again := writeFile_shelf env created.1 created.2
    exact ⟨again.1, again.2, writer⟩
  · exact ⟨first.1, first.2, writer⟩

end

end SysEventDoc

/-- The files of an event name, the document object that is in use, and the
greatest sequence seen so far. -/
structure DocState where
  files : List DbFile
  doc : SysEventDoc
  last : Int

inductive DocLabel where
  | insert (env : StoreEnv) (event : SysEvent)
  | restart

namespace DocState
open SysEventDoc (Shelf Leads)
open DbFile (Ordered Newest)

def initial : DocState := ⟨[], .fresh, 0⟩

/-- Sequences of inserted events increase; a restart drops the object. -/
def step (key : DocKey) (state : DocState) : DocLabel → Option DocState
  | .insert env event =>
    if state.last < event.seq then
      let inserted := SysEventDoc.insert key env state.doc state.files (some event)
      some ⟨inserted.2.2, inserted.2.1, event.seq⟩
    else none
  | .restart => some { state with doc := .fresh }

/-- What an insert has to find if it looks for a file in the directory. -/
def Guard (state : DocState) : DocLabel → Prop
  | .insert env event =>
    (state.doc.writer = false ∨ state.doc.isNeedUpdateCurFile env state.files = true) →
      Leads env state.doc state.files event
  | .restart => True

structure Inv (key : DocKey) (state : DocState) : Prop where
  shelf : Shelf key state.files state.last
  nonneg : 0 ≤ state.last
  current : state.doc.writer = true → Newest state.files state.doc.curFile

theorem step_inv {next : DocState} (inv : Inv key state) (guard : Guard state label)
    (stepped : step key state label = some next) : Inv key next := by
  cases label with
  | insert env event =>
    rw [step] at stepped
    split at stepped
    · rename_i later
      cases stepped
      have nonneg := inv.nonneg
      have inserted := SysEventDoc.insert_shelf inv.shelf later
        (Int.lt_of_le_of_lt nonneg later) inv.current guard
      exact ⟨inserted.1, Int.le_of_lt (Int.lt_of_le_of_lt nonneg later), fun _ => inserted.2.1⟩
    · cases stepped
  | restart =>
    cases stepped
    exact ⟨inv.shelf, inv.nonneg, nofun⟩

/-- In every run in which no insert is led to an older file, the files stay
ordered by sequence. -/
theorem ordered_of_guarded {key : DocKey} {labels : List DocLabel} {state : DocState}
    (guarded : Transition.Guarded (step key) Guard initial labels)
    (ran : Transition.run (step key) initial labels = some state) : Ordered state.files := by
  have start : Inv key initial := ⟨⟨⟨.nil, nofun, nofun⟩, nofun, nofun⟩, Int.le_refl 0, nofun⟩
  exact (Transition.run_guarded step_inv start guarded ran).shelf.ordered

/-- Events of one name that differ in their report intervals. -/
def sampleEvent (num : Int64) (interval : Int16) : SysEvent :=
  ⟨.plain num, 1, .minor, interval⟩

def sampleKey : DocKey := ⟨Numeral.ascii "/D", ⟨Numeral.ascii "N", by decide, by decide⟩⟩

/-- Files of up to 100 KiB in pages of one KiB. -/
def sampleEnv : StoreEnv := ⟨.plain, fun _ => 100⟩

theorem ordered_of_guarded_restart : ∃ state,
    Transition.run (step sampleKey) initial [.insert sampleEnv (sampleEvent 1 5), .restart] =
      some state ∧ Ordered state.files := by
  obtain ⟨state, ran⟩ : ∃ state, Transition.run (step sampleKey) initial
      [.insert sampleEnv (sampleEvent 1 5), .restart] = some state := ⟨_, rfl⟩
  have guarded : Transition.Guarded (step sampleKey) Guard initial
      [.insert sampleEnv (sampleEvent 1 5), .restart] :=
    ⟨fun _ => nofun, fun _ _ => ⟨trivial, fun _ _ => trivial⟩⟩
  exact ⟨state, ran, ordered_of_guarded guarded ran⟩

/-- An interval of four digits makes the path of an older file longer than that
of a newer one; after a restart the older file is taken up again. -/
theorem not_ordered_longPath : ∃ state,
    Transition.run (step sampleKey) initial [.insert sampleEnv (sampleEvent 1 1000), .restart,
      .insert sampleEnv (sampleEvent 2 5), .restart, .insert sampleEnv (sampleEvent 3 1000)] =
        some state ∧ ¬ Ordered state.files := by
  have ran : (Transition.run (step sampleKey) initial [.insert sampleEnv (sampleEvent 1 1000),
      .restart, .insert sampleEnv (sampleEvent 2 5), .restart,
      .insert sampleEnv (sampleEvent 3 1000)]).map (fun state =>
        state.files.map fun file => (file.seq, file.seqs)) = some [(1, [1, 3]), (2, [2])] := by
    decide +kernel
  obtain ⟨state, ran, files⟩ := Option.map_eq_some_iff.mp ran
  obtain ⟨older, rest, shape, one, tail⟩ := map_eq_cons_iff.mp files
  obtain ⟨newer, none, rfl, two, -⟩ := map_eq_cons_iff.mp tail
  obtain ⟨oldSeq, oldSeqs⟩ := Prod.mk.inj one
  obtain ⟨newSeq, -⟩ := Prod.mk.inj two
  refine ⟨state, ran, fun ordered => ?_⟩
  rw [shape] at ordered
  have late := ordered.high older mem_cons_self newer
    (mem_cons_of_mem _ mem_cons_self) (by rw [oldSeq, newSeq]; decide) 3
    (by rw [oldSeqs]; decide)
  rw [newSeq] at late
  exact absurd late (by decide)

end DocState
end Hiview.EventStore
