import Hiview.Lib.Bytes

/-! An input file stream: a fixed content, a position and the two state bits
that reads and seeks test and set. The stream is open; no other error occurs. -/
namespace Hiview

structure InputStream where
  content : List UInt8
  pos : Nat
  eof : Bool
  fail : Bool
  deriving DecidableEq

namespace InputStream

def opened (content : List UInt8) : InputStream := ⟨content, 0, false, false⟩

/-- A stream in a good state at a position. -/
def ready (content : List UInt8) (pos : Nat) : InputStream := ⟨content, pos, false, false⟩

variable (stream : InputStream)

def good : Bool := !stream.eof && !stream.fail

/-- The position, or -1; asking a stream that is not good makes it fail. -/
def tellg : Int × InputStream :=
  if stream.good then (stream.pos, stream) else (-1, { stream with fail := true })

/-- The bytes that were extracted. Fewer than asked for set both bits. -/
def read (count : Nat) : List UInt8 × InputStream :=
  if stream.good then
    let got := (stream.content.drop stream.pos).take count
    if got.length < count then
      (got, { stream with pos := stream.pos + got.length, eof := true, fail := true })
    else (got, { stream with pos := stream.pos + count })
  else ([], { stream with fail := true })

/-- Seeking forgets the end of file, and then does nothing on a failed stream. -/
def seekTo (target : Int) : InputStream :=
  if stream.fail then { stream with eof := false }
  else if target < 0 then { stream with eof := false, fail := true }
  else { stream with eof := false, pos := target.toNat }

def seekg (offset : Int) : InputStream := stream.seekTo offset

def seekgCur (offset : Int) : InputStream :=
  stream.seekTo (stream.pos + offset)

def seekgEnd (offset : Int) : InputStream :=
  stream.seekTo (stream.content.length + offset)

def setEof : InputStream := { stream with eof := true }

variable {content bytes : List UInt8} {pos : Nat}

@[simp] theorem tellg_ready (content : List UInt8) (pos : Nat) :
    (ready content pos).tellg = ((pos : Int), ready content pos) := rfl

@[simp] theorem seekg_ready (content : List UInt8) (pos target : Nat) :
    (ready content pos).seekg target = ready content target := by
  have nonneg : ¬ (target : Int) < 0 := by omega
  simp [seekg, seekTo, ready, if_neg nonneg]

@[simp] theorem seekgCur_back (content : List UInt8) (pos count : Nat) :
    (ready content (pos + count)).seekgCur (-count) = ready content pos := by
  have back : ((pos + count : Nat) : Int) + -count = pos := by omega
  change (ready content (pos + count)).seekTo (((pos + count : Nat) : Int) + -count) = _
  rw [back]
  exact seekg_ready content (pos + count) pos

theorem seekgEnd_ready (content : List UInt8) (pos : Nat) :
    (ready content pos).seekgEnd 0 = ready content content.length := by
  exact seekg_ready content pos content.length

theorem read_ready (here : Bytes.Occurs content pos bytes) :
    (ready content pos).read bytes.length = (bytes, ready content (pos + bytes.length)) := by
  have slice := here.slice
  simp [read, good, ready, slice, Bool.and_self]

theorem read_short (short : content.length < pos + count) (inside : pos ≤ content.length) :
    (ready content pos).read count =
      (content.drop pos, ⟨content, content.length, true, true⟩) := by
  have all : (content.drop pos).take count = content.drop pos :=
    List.take_of_length_le (by rw [List.length_drop]; omega)
  have fewer : (content.drop pos).length < count := by rw [List.length_drop]; omega
  have last : pos + (content.drop pos).length = content.length := by rw [List.length_drop]; omega
  simp only [read, good, ready, all, if_pos fewer, last, Bool.not_false, Bool.and_self, if_true]

end InputStream
end Hiview
