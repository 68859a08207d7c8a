import Hiview.EventStore.DocWriter
import Hiview.EventStore.DocRound

/-! The file header a writer leaves, as a reader finds it. -/
namespace Hiview.EventStore
open List
open Bytes (occurs_append)
open DocHeader (bytes bytes_length ofBytes)
open InputStream (opened read_ready ready seekg_ready tellg_ready)

/-- The reader takes version strings up to `MAX_VERSION_LENG` only. -/
def Environment.Readable (env : Environment) : Prop :=
  env.sysVersion.text.length ≤ maxVersionLeng ∧ env.patchVersion.text.length ≤ maxVersionLeng

instance (env : Environment) : Decidable env.Readable := inferInstanceAs (Decidable (_ ∧ _))

namespace SysEventDocWriter

theorem versionBytes_length (version : Version) :
    (versionBytes version).length = version.text.length + 5 := by
  simp [versionBytes, Bytes.littleEndian_length]
  omega

variable (env : Environment)

theorem headerBytes_length (event : DocEvent) :
    (headerBytes env event).length = blockSize env + 8 := by
  simp [headerBytes, blockSize, bytes_length, DocHeader.size]
  omega

theorem blockSize_lt : blockSize env < 2 ^ 14 := by
  have sys := env.sysVersion.bounded
  have patch := env.patchVersion.bounded
  simp [blockSize, versionBytes_length, DocHeader.size]
  omega

theorem docHeader_blockSize (event : DocEvent) :
    (docHeader env event).blockSize.toNat + 8 = (headerBytes env event).length := by
  have small := blockSize_lt env
  rw [headerBytes_length, docHeader]
  simp only [UInt32.toNat_ofNat', Nat.mod_eq_of_lt (show blockSize env < 2 ^ 32 by omega)]

end SysEventDocWriter

namespace SysEventDocReader
open SysEventDocWriter

variable {file : List UInt8} {env : Environment} {event : DocEvent}

theorem new_eq (file : List UInt8) :
    new file = ⟨(readFmtVersion (.ready file 0)).2, castInt file.length, 0,
      (readFmtVersion (.ready file 0)).1, 0, ⟨[], []⟩⟩ := by
  have start : (opened file).tellg = (((0 : Nat) : Int), ready file 0) := rfl
  rw [new, start, InputStream.seekgEnd_ready, tellg_ready, seekg_ready]

theorem readFileSize_new (file : List UInt8) : (new file).readFileSize = castInt file.length := by
  rw [new_eq, readFileSize]

theorem readFmtVersion_ready (here : Bytes.Occurs file 13 [version]) (pos : Nat) :
    readFmtVersion (.ready file pos) = (version, .ready file pos) := by
  have got := read_ready here
  have sought := seekg_ready file pos 13
  rw [readFmtVersion, tellg_ready]
  simp only [Nat.cast_ofNat] at sought
  rw [sought]
  simp only [length_cons, length_nil] at got
  rw [got, seekg_ready]
  rfl

variable {pos : Nat}

theorem getDataString_version (here : Bytes.Occurs file pos (versionBytes version)) :
    getDataString (.ready file pos) =
      if version.text.length ≤ maxVersionLeng then
        (some version.text, .ready file (pos + (versionBytes version).length))
      else (none, .ready file (pos + 4)) := by
  obtain ⟨word, text⟩ := occurs_append.mp here
  have bounded := version.bounded
  have clean : (version.text ++ [0]).takeWhile (· ≠ 0) = version.text := by
    have plain : ∀ byte ∈ version.text, decide (byte ≠ 0) = true := fun byte member =>
      decide_eq_true fun zero => version.clean (zero ▸ member)
    rw [takeWhile_append_of_pos plain, takeWhile_cons_of_neg (by decide), append_nil]
  have value := Bytes.value_littleEndian_of_lt (show version.text.length + 1 < 256 ^ 4 by omega)
  have gotWord := read_ready word
  have gotText := read_ready text
  rw [Bytes.littleEndian_length] at gotWord gotText
  rw [length_append, length_cons, length_nil] at gotText
  simp only [getDataString, gotWord, value, gotText, clean]
  by_cases fits : version.text.length ≤ maxVersionLeng
  · rw [if_neg (by omega), if_pos fits, versionBytes_length]
    congr 2
    omega
  · rw [if_pos (by omega), if_neg fits]

variable {reader : SysEventDocReader}

variable (here : Bytes.Occurs file 0 (headerBytes env event))
include here

/-- The reader after a successful `ReadHeader`. -/
theorem readVersionedDetails_written
    (stream : reader.stream = .ready file pos) :
    (env.Readable ∧ reader.readVersionedDetails true = (.success, docHeader env event,
      { reader with
        stream := .ready file (headerBytes env event).length
        docHeaderSize := (headerBytes env event).length
        headExtra := ⟨env.sysVersion.text, env.patchVersion.text⟩ })) ∨
    (¬ env.Readable ∧ ∃ after pos, reader.readVersionedDetails true =
      (.errorInvalid, docHeader env event, after) ∧ after.stream = .ready file pos ∧
      after.dataFmtVersion = reader.dataFmtVersion) := by
  have size := docHeader_blockSize env event
  have length : (headerBytes env event).length =
      0 + DocHeader.size + (versionBytes env.sysVersion).length +
        (versionBytes env.patchVersion).length := by
    simp only [headerBytes, length_append, bytes_length]
    omega
  rw [headerBytes, occurs_append, occurs_append] at here
  obtain ⟨⟨header, sys⟩, patch⟩ := here
  have sought : (reader.stream.seekg 0).read DocHeader.size =
      ((docHeader env event).bytes, .ready file (0 + DocHeader.size)) := by
    have got := read_ready header
    rw [bytes_length] at got
    rw [stream, ← got]
    exact congrArg (InputStream.read · _) (seekg_ready file pos 0)
  have parsed : ofBytes (docHeader env event).bytes = docHeader env event :=
    DocHeader.ofBytes_of_occurs (prefix_refl _)
  rw [length_append, ← Nat.add_assoc, bytes_length] at patch
  rw [bytes_length] at sys
  have gotSys := getDataString_version sys
  have gotPatch := getDataString_version patch
  by_cases sysFits : env.sysVersion.text.length ≤ maxVersionLeng
  · rw [if_pos sysFits] at gotSys
    by_cases patchFits : env.patchVersion.text.length ≤ maxVersionLeng
    · rw [if_pos patchFits] at gotPatch
      refine .inl ⟨⟨sysFits, patchFits⟩, ?_⟩
      simp only [readVersionedDetails, sought, parsed, gotSys, gotPatch, if_true, size]
      rw [length]
    · rw [if_neg patchFits] at gotPatch
      refine .inr ⟨fun readable => patchFits readable.2,
        { reader with
          stream := .ready file (0 + DocHeader.size + (versionBytes env.sysVersion).length + 4)
          headExtra.sysVersion := env.sysVersion.text }, _, ?_, rfl, rfl⟩
      simp only [readVersionedDetails, sought, parsed, gotSys, gotPatch, if_true]
  · rw [if_neg sysFits] at gotSys
    refine .inr ⟨fun readable => sysFits readable.1,
      { reader with stream := .ready file (0 + DocHeader.size + 4) }, _, ?_, rfl, rfl⟩
    simp only [readVersionedDetails, sought, parsed, gotSys]

theorem new_written :
    new file = ⟨.ready file 0, castInt file.length, 0, 4, 0, ⟨[], []⟩⟩ := by
  have version : Bytes.Occurs file 13 [4] := by
    rw [headerBytes, bytes, occurs_append, occurs_append, occurs_append, occurs_append] at here
    obtain ⟨⟨⟨⟨-, fields⟩, -⟩, -⟩, -⟩ := here
    exact (Bytes.occurs_cons.mp fields).2
  rw [new_eq, readFmtVersion_ready version]

omit here

theorem readHeader_current (version : reader.dataFmtVersion = 4) :
    reader.readHeader = reader.readVersionedDetails true := by
  rw [readHeader, version]
  rfl

/-- The extra head information of a document. -/
def extraOf (env : Environment) : HeadExtraInfo := ⟨env.sysVersion.text, env.patchVersion.text⟩

section
variable (here : Bytes.Occurs file 0 (headerBytes env event))
include here

theorem readHeader_written (readable : env.Readable) (stream : reader.stream = .ready file pos)
    (version : reader.dataFmtVersion = 4) :
    reader.readHeader = (.success, docHeader env event,
      { reader with
        stream := .ready file (headerBytes env event).length
        docHeaderSize := (headerBytes env event).length
        headExtra := extraOf env }) := by
  rw [readHeader_current version]
  rcases readVersionedDetails_written here stream with ⟨-, read⟩ | ⟨unreadable, -⟩
  · exact read
  · exact absurd readable unreadable

theorem readHeader_new (readable : env.Readable) :
    (new file).readHeader = (.success, docHeader env event,
      cursor file 0 (headerBytes env event).length (extraOf env) (headerBytes env event).length) := by
  rw [new_written here]
  exact readHeader_written here readable rfl rfl

theorem readHeader_refused (unreadable : ¬ env.Readable) (stream : reader.stream = .ready file pos)
    (version : reader.dataFmtVersion = 4) :
    ∃ after pos, reader.readHeader = (.errorInvalid, docHeader env event, after) ∧
      after.stream = .ready file pos ∧ after.dataFmtVersion = 4 := by
  rw [readHeader_current version]
  rcases readVersionedDetails_written here stream with ⟨readable, -⟩ | ⟨-, after, pos, read⟩
  · exact absurd readable unreadable
  · rw [version] at read
    exact ⟨after, pos, read⟩

end

def pageBytes (env : Environment) (event : DocEvent) : Nat :=
  (storedPageSize env event).toNat * numOfBytesInKb

theorem pageBytes_lt (env : Environment) (event : DocEvent) : pageBytes env event < 2 ^ 18 := by
  have byte := (storedPageSize env event).toNat_lt
  rw [pageBytes, numOfBytesInKb]
  omega

theorem pageBytes_ge (paged : pageBytes env event ≠ 0) : 1024 ≤ pageBytes env event := by
  rw [pageBytes, numOfBytesInKb] at *
  omega

section
variable (here : Bytes.Occurs file 0 (headerBytes env event))
include here

theorem readPageSize_new (readable : env.Readable) (pos : Nat) :
    (cursor file 0 (headerBytes env event).length (extraOf env) pos).readPageSize =
      (.success, pageBytes env event) := by
  rw [readPageSize, readHeader_written here readable rfl rfl]
  rfl

theorem read_refused (unreadable : ¬ env.Readable) : (new file).read = (.errorInvalid, some []) := by
  obtain ⟨after, pos, read, -⟩ := readHeader_refused here unreadable
    (show (new file).stream = .ready file 0 by rw [new_written here])
    (show (new file).dataFmtVersion = 4 by rw [new_written here])
  rw [SysEventDocReader.read, read]

theorem read_new (readable : env.Readable) :
    (new file).read = readBody (cursor file (pageBytes env event) (headerBytes env event).length
      (extraOf env) (headerBytes env event).length) := by
  rw [SysEventDocReader.read, readHeader_new here readable]
  rfl

end

end SysEventDocReader
end Hiview.EventStore
