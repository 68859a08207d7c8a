import Hiview.Lib.Bytes

/-! Readers that advance a position in a block of bytes below an announced
bound. Reading past the block itself is a `fault`, kept apart from a refusal,
so that staying inside the block is a statement about a reader. -/
namespace Hiview

inductive Read (α : Type) where
  | fault
  | failed (pos : Nat)
  | done (pos : Nat) (val : α)
  deriving DecidableEq

/-- No fault, and a position between the two given ones. -/
def Read.Between {α : Type} (low high : Nat) : Read α → Prop
  | .fault => False
  | .failed pos => low ≤ pos ∧ pos ≤ high
  | .done pos _ => low ≤ pos ∧ pos ≤ high

theorem Read.Between.from_earlier {read : Read α} (between : read.Between low high) (before : first ≤ low) :
    read.Between first high := by
  cases read with
  | fault => exact between
  | failed pos => exact ⟨before.trans between.1, between.2⟩
  | done pos val => exact ⟨before.trans between.1, between.2⟩

/-- A reader gets the block, the bound and the position. -/
def Reader (α : Type) : Type := List UInt8 → Nat → Nat → Read α

namespace Reader
variable {α β : Type}

def pure (val : α) : Reader α := fun _ _ pos => .done pos val

def fail : Reader α := fun _ _ pos => .failed pos

/-- One byte below the bound. -/
def byte : Reader UInt8 := fun block maxLen pos =>
  if pos ≥ maxLen then .failed pos
  else match block[pos]? with
    | none => .fault
    | some val => .done (pos + 1) val

def andThen (first : Reader α) (next : α → Reader β) : Reader β := fun block maxLen pos =>
  match first block maxLen pos with
  | .fault => .fault
  | .failed pos => .failed pos
  | .done pos val => next val block maxLen pos

/-- `count` readings in a row. -/
def repeated (reader : Reader α) : Nat → Reader (List α)
  | 0 => pure []
  | count + 1 => reader.andThen fun val => (reader.repeated count).andThen fun vals =>
      pure (val :: vals)

/-- Wherever `bytes` stand in an addressable block, the reader bounded by the
length of the block consumes exactly them and returns `val`. -/
def Reads (reader : Reader α) (bytes : List UInt8) (val : α) : Prop :=
  ∀ block pos, Bytes.Occurs block pos bytes → pos ≤ block.length → block.length < 2 ^ 64 →
    reader block block.length pos = .done (pos + bytes.length) val

theorem reads_pure (val : α) : (pure val).Reads [] val := fun _ _ _ _ _ => rfl

theorem reads_byte (val : UInt8) : byte.Reads [val] val := by
  intro block pos here _ _
  rw [byte, if_neg here.before_end, (Bytes.occurs_cons.mp here).1]
  rfl

variable {next : α → Reader β} {first : Reader α}

theorem Reads.andThen (head : first.Reads front middle) (tail : (next middle).Reads back val) :
    (first.andThen next).Reads (front ++ back) val := by
  intro block pos here inside addressable
  obtain ⟨frontHere, backHere⟩ := Bytes.occurs_append.mp here
  simp only [Reader.andThen, head block pos frontHere inside addressable]
  rw [tail block _ backHere (frontHere.bound inside) addressable, List.length_append, Nat.add_assoc]

variable {reader : Reader α}

theorem Reads.map (reads : reader.Reads bytes val) (f : α → β) :
    (reader.andThen fun val => pure (f val)).Reads bytes (f val) := by
  intro block pos here inside addressable
  simp only [Reader.andThen, reads block pos here inside addressable, pure]

theorem reads_repeated (each : ∀ val ∈ vals, reader.Reads (encoded val) val) :
    (reader.repeated vals.length).Reads (vals.flatMap encoded) vals := by
  induction vals with
  | nil => exact reads_pure []
  | cons val rest ih =>
    have others := ih fun other member => each other (List.mem_cons_of_mem val member)
    simpa only [List.flatMap_cons, List.length_cons, repeated] using
      (each val List.mem_cons_self).andThen (others.map (val :: ·))

/-- A success depends on nothing but the bytes that it consumes. -/
def Local (reader : Reader α) : Prop :=
  ∀ ⦃block pos next val⦄, pos ≤ block.length → block.length < 2 ^ 64 →
    reader block block.length pos = .done next val →
    ∃ bytes, Bytes.Occurs block pos bytes ∧ next = pos + bytes.length ∧ reader.Reads bytes val

theorem local_pure (val : α) : (pure val).Local := by
  rintro block pos _ _ inside addressable ⟨⟩
  exact ⟨[], Bytes.occurs_nil block pos, rfl, reads_pure val⟩

theorem local_fail : (fail : Reader α).Local := by
  rintro block pos _ _ inside addressable ⟨⟩

variable {block : List UInt8}

theorem byte_of_done (read : byte block maxLen pos = .done last val) :
    pos < maxLen ∧ block[pos]? = some val ∧ last = pos + 1 := by
  rw [byte] at read
  split at read
  · cases read
  · rename_i before
    split at read <;> cases read
    exact ⟨Nat.not_le.mp before, ‹_›, rfl⟩

theorem byte_andThen (next : UInt8 → Reader β) : byte.andThen next block maxLen pos =
    if pos ≥ maxLen then .failed pos
    else match block[pos]? with
      | none => .fault
      | some val => next val block maxLen (pos + 1) := by
  rw [andThen, byte]
  by_cases past : pos ≥ maxLen
  · rw [if_pos past, if_pos past]
  · rw [if_neg past, if_neg past]
    cases block[pos]? <;> rfl

theorem local_byte : byte.Local := by
  intro block pos next val inside addressable read
  obtain ⟨-, here, rfl⟩ := byte_of_done read
  exact ⟨[val], Bytes.occurs_cons.mpr ⟨here, Bytes.occurs_nil _ _⟩, rfl, reads_byte val⟩

theorem done_of_andThen (read : first.andThen next block maxLen pos = .done last val) :
    ∃ middle found, first block maxLen pos = .done middle found ∧
      next found block maxLen middle = .done last val := by
  rw [Reader.andThen] at read
  split at read
  · cases read
  · cases read
  · rename_i middle found front
    exact ⟨middle, found, front, read⟩

theorem Local.andThen (front : first.Local) (back : ∀ found, (next found).Local) : (first.andThen next).Local := by
  intro block pos last val inside addressable read
  obtain ⟨middle, found, head, tail⟩ := done_of_andThen read
  obtain ⟨bytes, here, rfl, reads⟩ := front inside addressable head
  obtain ⟨more, moreHere, rfl, moreReads⟩ := back found (here.bound inside) addressable tail
  exact ⟨bytes ++ more, Bytes.occurs_append.mpr ⟨here, moreHere⟩,
    by rw [List.length_append, Nat.add_assoc], reads.andThen moreReads⟩

theorem Local.repeated (each : reader.Local) (count : Nat) : (reader.repeated count).Local := by
  induction count with
  | zero => exact local_pure []
  | succ count ih =>
    exact each.andThen fun val => ih.andThen fun vals => local_pure (val :: vals)

theorem repeated_add :
    reader.repeated (count + more) block maxLen pos = .done last all ↔
      ∃ middle vals others, reader.repeated count block maxLen pos = .done middle vals ∧
        reader.repeated more block maxLen middle = .done last others ∧ all = vals ++ others := by
  induction count generalizing pos all with
  | zero =>
    rw [Nat.zero_add]
    constructor
    · exact fun read => ⟨pos, [], all, rfl, read, rfl⟩
    · rintro ⟨middle, vals, others, ⟨⟩, read, rfl⟩
      exact read
  | succ count ih =>
    rw [Nat.succ_add]
    constructor
    · intro read
      obtain ⟨middle, val, first, rest⟩ := done_of_andThen read
      obtain ⟨ending, vals, tail, ⟨⟩⟩ := done_of_andThen rest
      obtain ⟨between, front, others, frontRead, othersRead, rfl⟩ := ih.mp tail
      refine ⟨between, val :: front, others, ?_, othersRead, rfl⟩
      simp only [repeated, Reader.andThen, first, frontRead, pure]
    · rintro ⟨between, front, others, frontRead, othersRead, rfl⟩
      obtain ⟨middle, val, first, rest⟩ := done_of_andThen frontRead
      obtain ⟨ending, vals, tail, ⟨⟩⟩ := done_of_andThen rest
      have joined := ih.mpr ⟨_, vals, others, tail, othersRead, rfl⟩
      simp only [repeated, Reader.andThen, first, joined, pure, List.cons_append]

theorem repeated_length (read : reader.repeated count block maxLen pos = .done last vals) : vals.length = count := by
  induction count generalizing pos vals with
  | zero =>
    cases read
    rfl
  | succ count ih =>
    obtain ⟨middle, val, first, rest⟩ := done_of_andThen read
    obtain ⟨ending, others, tail, ⟨⟩⟩ := done_of_andThen rest
    exact congrArg Nat.succ (ih tail)

/-- From a position inside a block a reader goes forward and stays inside. -/
def Forward (reader : Reader α) : Prop :=
  ∀ block pos, pos ≤ block.length → block.length < 2 ^ 63 →
    (reader block block.length pos).Between pos block.length

theorem forward_pure (val : α) : (pure val).Forward := fun _ pos inside _ => ⟨Nat.le_refl pos, inside⟩

theorem forward_fail : (fail : Reader α).Forward := fun _ pos inside _ => ⟨Nat.le_refl pos, inside⟩

theorem forward_byte : byte.Forward := by
  intro block pos inside small
  by_cases before : pos < block.length
  · rw [byte, if_neg (Nat.not_le.mpr before), List.getElem?_eq_getElem before]
    exact ⟨Nat.le_succ pos, before⟩
  · rw [byte, if_pos (Nat.not_lt.mp before)]
    exact ⟨Nat.le_refl pos, inside⟩

theorem Forward.andThen (front : first.Forward) (back : ∀ found, (next found).Forward) :
    (first.andThen next).Forward := by
  intro block pos inside small
  have head := front block pos inside small
  unfold Reader.andThen
  cases outcome : first block block.length pos with
  | fault =>
    rw [outcome] at head
    exact head.elim
  | failed stopped =>
    rw [outcome] at head
    exact head
  | done middle found =>
    rw [outcome] at head
    exact (back found block middle head.2 small).from_earlier head.1

theorem Forward.repeated (each : reader.Forward) (count : Nat) : (reader.repeated count).Forward := by
  induction count with
  | zero => exact forward_pure []
  | succ count ih => exact each.andThen fun val => ih.andThen fun vals => forward_pure (val :: vals)

/-- What a reader gives takes at least its weight in bytes. -/
def Takes (reader : Reader α) (weight : α → Nat) : Prop :=
  ∀ ⦃block maxLen pos next val⦄, reader block maxLen pos = .done next val → pos + weight val ≤ next

section Takes
variable {weight : α → Nat} {whole : β → Nat}

theorem takes_byte : byte.Takes fun _ => 1 := by
  intro block maxLen pos next val read
  exact (byte_of_done read).2.2.ge

theorem takes_pure (nothing : weight val = 0) : (pure val).Takes weight := by
  rintro block maxLen pos next _ ⟨⟩
  rw [nothing]
  exact Nat.le_refl pos

theorem Takes.andThen (front : first.Takes weight)
    (back : ∀ found, (next found).Takes fun val => whole val - weight found) : (first.andThen next).Takes whole := by
  intro block maxLen pos last val read
  obtain ⟨middle, found, head, tail⟩ := done_of_andThen read
  have before := front head
  have behind := back found tail
  dsimp only at behind
  omega

theorem Takes.map (takes : reader.Takes weight) {make : α → β} (less : ∀ val, whole (make val) ≤ weight val) :
    (reader.andThen (pure ∘ make)).Takes whole :=
  takes.andThen fun found => takes_pure (Nat.sub_eq_zero_of_le (less found))

theorem Takes.repeated (each : reader.Takes weight) (count : Nat) :
    (reader.repeated count).Takes fun vals => (vals.map weight).sum := by
  induction count with
  | zero => exact takes_pure rfl
  | succ count ih =>
    refine each.andThen fun val => ih.andThen fun vals => takes_pure ?_
    rw [List.map_cons, List.sum_cons]
    omega

end Takes

end Reader
end Hiview
