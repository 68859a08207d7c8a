import Hiview.EventStore.DocReader

/-! Where contents stand in a document, and what a reader gets from a document
of which only a front part is there. Lengths are counted from the end of the
file header; no reader or writer is mentioned. -/
namespace Hiview.EventStore.DocLayout
open DocEvent List

/-- The zeros between a body of length `len` and the next content. -/
def fill (pageSize len size : Nat) : Nat :=
  if pageSize - len % pageSize < size then pageSize - len % pageSize else 0

/-- What is appended to a body of length `len` to store the events. -/
def bytes (pageSize : Nat) : Nat → List DocEvent → List UInt8
  | _, [] => []
  | len, event :: rest =>
    let gap := fill pageSize len event.contentSize
    List.replicate gap 0 ++ (event.content ++ bytes pageSize (len + gap + event.contentSize) rest)

/-- The length of the body after the events have been stored. -/
def size (pageSize : Nat) : Nat → List DocEvent → Nat
  | len, [] => len
  | len, event :: rest =>
    size pageSize (len + fill pageSize len event.contentSize + event.contentSize) rest

variable (pageSize len : Nat) (events : List DocEvent)

theorem bytes_length : len + (bytes pageSize len events).length = size pageSize len events := by
  induction events generalizing len with
  | nil => rfl
  | cons event rest ih =>
    simp [bytes, size, length_replicate, event.content_length, ← ih]
    omega

theorem bytes_append (event : DocEvent) :
    bytes pageSize len (events ++ [event]) = bytes pageSize len events ++
      (List.replicate (fill pageSize (size pageSize len events) event.contentSize) 0 ++
        event.content) := by
  induction events generalizing len with
  | nil => simp [bytes, size]
  | cons first rest ih => simp [bytes, size, ih]

/-- A size word of which only the first bytes are there reads as their value. -/
def visibleSize (event : DocEvent) (visible : Nat) : Nat :=
  event.contentSize % 256 ^ min visible hiviewBlockSize

/-- What is delivered of a content that is cut after `visible` bytes: nothing
when the size that can be seen is too small, else a buffer that is only partly
filled, or not at all when the size word itself is cut. -/
def torn (event : DocEvent) (visible : Nat) : List Content :=
  if visibleSize event visible < minContentSize then []
  else if visible < hiviewBlockSize then [List.replicate (visibleSize event visible) none]
  else [(event.content.take visible).map some ++
    List.replicate (event.contentSize - visible) none]

/-- What is delivered when `visible` bytes follow a body of length `len`. -/
def delivered (pageSize : Nat) : Nat → List DocEvent → Nat → List Content
  | _, [], _ => []
  | len, event :: rest, visible =>
    let gap := fill pageSize len event.contentSize
    if visible ≤ gap then []
    else if visible < gap + event.contentSize then torn event (visible - gap)
    else event.stored ::
      delivered pageSize (len + gap + event.contentSize) rest (visible - gap - event.contentSize)

/-- How many contents lie wholly in the `visible` bytes that follow a body of
length `len`. -/
def whole (pageSize : Nat) : Nat → List DocEvent → Nat → Nat
  | _, [], _ => 0
  | len, event :: rest, visible =>
    let gap := fill pageSize len event.contentSize
    if visible < gap + event.contentSize then 0
    else whole pageSize (len + gap + event.contentSize) rest (visible - gap - event.contentSize) + 1

/-- The event whose content the end of the visible bytes cuts, and how many
bytes of it are there. -/
def cutRecord (pageSize : Nat) : Nat → List DocEvent → Nat → Option (DocEvent × Nat)
  | _, [], _ => none
  | len, event :: rest, visible =>
    let gap := fill pageSize len event.contentSize
    if visible ≤ gap then none
    else if visible < gap + event.contentSize then some (event, visible - gap)
    else cutRecord pageSize (len + gap + event.contentSize) rest (visible - gap - event.contentSize)

/-- The page in which a body of length `len` ends. -/
def pageOf (pageSize len : Nat) : Nat := (len - 1) / pageSize

section Pages
variable {pageSize len size : Nat}

theorem pageOf_low (pageSize len : Nat) : pageSize * pageOf pageSize len ≤ len :=
  Nat.le_trans (Nat.mul_div_le _ _) (Nat.sub_le _ _)

theorem pageOf_high (positive : 0 < pageSize) : len ≤ pageSize * (pageOf pageSize len + 1) := by
  have above := Nat.lt_mul_div_succ (len - 1) positive
  rw [pageOf]
  omega

theorem pageOf_eq (low : pageSize * page < len) (high : len ≤ pageSize * (page + 1)) :
    pageOf pageSize len = page := by
  have next : pageSize * (page + 1) = pageSize * page + pageSize := Nat.mul_succ _ _
  have positive : 0 < pageSize := by
    rcases Nat.eq_zero_or_pos pageSize with zero | positive
    · omega
    · exact positive
  rw [pageOf, Nat.div_eq_iff positive, Nat.mul_comm]
  omega

/-- A content either goes on in the page in which the body ends, or starts the
next one. -/
theorem fill_cases (positive : 0 < pageSize) (fits : size ≤ pageSize) :
    (fill pageSize len size = 0 ∧ len + size ≤ pageSize * (pageOf pageSize len + 1)) ∨
    (0 < len ∧ len + fill pageSize len size = pageSize * (pageOf pageSize len + 1)) := by
  have split := Nat.div_add_mod len pageSize
  have offset := Nat.mod_lt len positive
  rcases Nat.eq_zero_or_pos len with rfl | nonempty
  · left
    rw [fill, Nat.zero_mod, Nat.sub_zero, if_neg (by omega)]
    exact ⟨rfl, by simpa [pageOf] using fits⟩
  · rcases Nat.eq_zero_or_pos (len % pageSize) with aligned | inside
    · right
      have page : pageOf pageSize len + 1 = len / pageSize := by
        have quotient : 0 < len / pageSize := by
          rcases Nat.eq_zero_or_pos (len / pageSize) with zero | quotient
          · rw [zero, Nat.mul_zero, aligned] at split
            omega
          · exact quotient
        have previous : pageSize * (len / pageSize) = pageSize * (len / pageSize - 1) + pageSize := by
          rw [← Nat.mul_succ, Nat.succ_eq_add_one, Nat.sub_add_cancel quotient]
        have here : pageOf pageSize len = len / pageSize - 1 :=
          pageOf_eq (by omega) (by rw [Nat.sub_add_cancel quotient]; omega)
        omega
      rw [fill, aligned, Nat.sub_zero, if_neg (by omega), page]
      exact ⟨nonempty, by omega⟩
    · have page : pageOf pageSize len = len / pageSize :=
        pageOf_eq (by omega) (by rw [Nat.mul_succ]; omega)
      rw [page, Nat.mul_succ, fill]
      split
      · exact .inr ⟨nonempty, by omega⟩
      · exact .inl ⟨rfl, by omega⟩

end Pages

variable (visible : Nat)

theorem delivered_eq :
    delivered pageSize len events visible =
      (events.take (whole pageSize len events visible)).map stored ++
        (cutRecord pageSize len events visible).elim [] fun record => torn record.1 record.2 := by
  induction events generalizing len visible with
  | nil => rfl
  | cons event rest ih =>
    have large := event.contentSize_ge
    simp only [delivered, whole, cutRecord]
    by_cases blank : visible ≤ fill pageSize len event.contentSize
    · rw [if_pos blank, if_pos blank, if_pos (by omega)]
      rfl
    · rw [if_neg blank, if_neg blank]
      by_cases cut : visible < fill pageSize len event.contentSize + event.contentSize
      · rw [if_pos cut, if_pos cut, if_pos cut]
        rfl
      · rw [if_neg cut, if_neg cut, if_neg cut, ih, take_succ_cons, map_cons, cons_append]

theorem torn_length (event : DocEvent) (visible : Nat) :
    (torn event visible).length = if visibleSize event visible < minContentSize then 0 else 1 := by
  rw [torn]
  split
  · rfl
  · split <;> rfl

/-- Nothing but whole contents is delivered unless a torn one shows a size that
is large enough. -/
theorem delivered_whole_iff :
    (∃ count ≤ whole pageSize len events visible,
      delivered pageSize len events visible = (events.take count).map stored) ↔
    ¬ ∃ event seen, cutRecord pageSize len events visible = some (event, seen) ∧
      minContentSize ≤ visibleSize event seen := by
  rw [delivered_eq]
  constructor
  · rintro ⟨count, most, same⟩ ⟨event, seen, cut, large⟩
    have lengths := congrArg List.length same
    rw [cut, Option.elim_some, length_append, torn_length, if_neg (Nat.not_lt.mpr large), length_map,
      length_map, length_take, length_take] at lengths
    omega
  · intro clean
    refine ⟨_, Nat.le_refl _, ?_⟩
    cases cut : cutRecord pageSize len events visible with
    | none => rw [Option.elim_none, append_nil]
    | some record =>
      have small : visibleSize record.1 record.2 < minContentSize := by
        by_contra large
        exact clean ⟨record.1, record.2, cut, Nat.not_lt.mp large⟩
      have nothing : torn record.1 record.2 = [] := by rw [torn, if_pos small]
      rw [Option.elim_some, nothing, append_nil]

theorem size_ge : len + 47 * events.length ≤ size pageSize len events := by
  induction events generalizing len with
  | nil => exact Nat.le_refl _
  | cons event rest ih =>
    have large := event.contentSize_ge
    have following := ih (len + fill pageSize len event.contentSize + event.contentSize)
    rw [size, length_cons]
    omega

theorem delivered_all :
    delivered pageSize len events (bytes pageSize len events).length =
      events.map stored := by
  induction events generalizing len with
  | nil => rfl
  | cons event rest ih =>
    have large := event.contentSize_ge
    have following := ih (len + fill pageSize len event.contentSize + event.contentSize)
    simp only [delivered, bytes, length_append, length_replicate, event.content_length, map_cons]
    rw [if_neg (by omega), if_neg (by omega), Nat.add_sub_cancel_left, Nat.add_sub_cancel_left,
      following]

end Hiview.EventStore.DocLayout
