import Hiview.EventRaw.DecodedBlock

/-! The decoder on bytes that no builder wrote. Every reader goes forward from
any position inside the block and stays inside; the construction of an event
chains them, so the positions it passes through are ordered and bounded
whatever the lengths and counts in the block say. -/
namespace Hiview.EventRaw
open List hiding below count head sum
open Reader (done_of_andThen forward_byte forward_fail forward_pure pure)
open HiSysEventHeader (size)

section Forward

theorem nonTagBytesDecoded_forward (rounds : Nat) (val : UInt64) (offset : UInt32) :
    (nonTagBytesDecoded rounds val offset).Forward := by
  induction rounds generalizing val offset with
  | zero => exact forward_fail
  | succ rounds ih =>
    rw [nonTagBytesDecoded_succ]
    refine forward_byte.andThen fun byte block pos inside small => ?_
    split
    · exact ih _ _ block pos inside small
    · exact ⟨Nat.le_refl pos, inside⟩

theorem unsignedVarintDecoded_forward : unsignedVarintDecoded.Forward := by
  rw [unsignedVarintDecoded_eq]
  refine forward_byte.andThen fun byte => ?_
  intro block pos inside small
  split
  · exact nonTagBytesDecoded_forward _ _ _ block pos inside small
  · exact ⟨Nat.le_refl pos, inside⟩

theorem signedVarintDecoded_forward : signedVarintDecoded.Forward :=
  unsignedVarintDecoded_forward.andThen fun uval => forward_pure (unzigzag uval)

theorem copied_between (room : pos + count ≤ block.length) :
    (copied count block maxLen pos).Between pos block.length := by
  rw [copied, if_pos room]
  exact ⟨Nat.le_add_right pos count, room⟩

theorem floatingNumberDecoded_forward : floatingNumberDecoded.Forward := by
  refine unsignedVarintDecoded_forward.andThen fun valByteCnt => ?_
  intro block pos inside small
  have converted (count : Nat) (make : List UInt8 → UInt64) (few : count ≤ 8)
      (passed : ¬ (pos + count) % 2 ^ 64 > block.length) :
      ((copied count).andThen (fun bytes => Reader.pure (make bytes)) block block.length
        pos).Between pos block.length := by
    have sum : (pos + count) % 2 ^ 64 = pos + count := Nat.mod_eq_of_lt (by omega)
    have room : pos + count ≤ block.length := Nat.le_of_not_lt (sum ▸ passed)
    simp [Reader.andThen, copied, if_pos room, Reader.pure]
    exact ⟨Nat.le_add_right pos count, room⟩
  dsimp only
  split
  · exact ⟨Nat.le_refl pos, inside⟩
  · rename_i passed
    split
    · rename_i single
      rw [single] at passed
      exact converted 4 _ (by decide) passed
    · split
      · rename_i double
        rw [double] at passed
        exact converted 8 _ (by decide) passed
      · exact ⟨Nat.le_refl pos, inside⟩

/-- The count is compared with the bound alone first, so that its sum with the
position cannot wrap. -/
theorem stringValueDecoded_forward : stringValueDecoded.Forward := by
  refine unsignedVarintDecoded_forward.andThen fun valByteCnt => ?_
  intro block pos inside small
  dsimp only
  split
  · exact ⟨Nat.le_refl pos, inside⟩
  · rename_i passed
    split
    · exact ⟨Nat.le_refl pos, inside⟩
    · have room : pos + valByteCnt.toNat ≤ block.length := by
        obtain ⟨single, sum⟩ := not_or.mp passed
        rw [Nat.mod_eq_of_lt (by omega)] at sum
        exact Nat.le_of_not_lt sum
      exact copied_between room

theorem valueTypeDecoded_forward : valueTypeDecoded.Forward := by
  rw [valueTypeDecoded_eq]
  exact forward_byte.andThen fun byte => forward_pure _

theorem arrayDecoded_forward (each : decoded.Forward) : (arrayDecoded decoded).Forward := by
  refine unsignedVarintDecoded_forward.andThen fun size => ?_
  split
  · exact forward_fail
  · exact each.repeated _

variable (created : decodeValue type = some reader)
include created

theorem decodeValue_forward : reader.Forward :=
  decodeValue_rule (P := Reader.Forward) created (fun make found => found.andThen fun val => forward_pure (make val))
    arrayDecoded_forward stringValueDecoded_forward floatingNumberDecoded_forward unsignedVarintDecoded_forward
    signedVarintDecoded_forward

theorem decodeValue_bounded
    (read : reader block maxLen pos = .done past value) : value.Bounded := by
  have array : ∀ {α : Type} {decoded : Reader α} {make : List α → Value},
      ((arrayDecoded decoded).andThen (pure ∘ make)) block maxLen pos = .done past value →
      ∃ vals, value = make vals ∧ vals.length ≤ maxArraySize := by
    intro α decoded make found
    obtain ⟨last, vals, elements, ⟨⟩⟩ := done_of_andThen found
    obtain ⟨middle, size, counted, rest⟩ := done_of_andThen elements
    split at rest
    · cases rest
    · rename_i few
      exact ⟨vals, rfl, (Reader.repeated_length rest).trans_le (Nat.le_of_not_lt few)⟩
  have scalar : ∀ {α : Type} {decoded : Reader α} {make : α → Value},
      (decoded.andThen (pure ∘ make)) block maxLen pos = .done past value →
      ∃ val, value = make val := by
    intro α decoded make found
    obtain ⟨last, val, single, ⟨⟩⟩ := done_of_andThen found
    exact ⟨val, rfl⟩
  unfold decodeValue at created
  dsimp only at created
  repeat' split at created
  all_goals cases created
  all_goals first
    | (obtain ⟨vals, rfl, few⟩ := array read; exact few)
    | (obtain ⟨val, rfl⟩ := scalar read; trivial)

end Forward

namespace DecodedEvent

/-- The positions at which the event, or the object of a parameter, stands in
the loop over the parameters. -/
def paramPositions (rawData : List UInt8) (maxLen : Nat) : Nat → Nat → List Nat
  | 0, _ => []
  | paramCnt + 1, pos =>
    match paramHead rawData maxLen pos with
    | .fault => []
    | .failed pos => [pos]
    | .done pos (_, type) =>
      match decodeValue type with
      | none => [pos]
      | some reader =>
        match reader rawData maxLen pos with
        | .fault => [pos]
        | .failed stopped => [pos, stopped]
        | .done next _ => pos :: next :: paramPositions rawData maxLen paramCnt next

def customizedPositions (data : List UInt8) (pos : Nat) : List Nat :=
  if pos + 4 > data.length ∨ sizeAt data pos > maxParamCnt then []
  else (pos + 4) :: paramPositions data data.length (sizeAt data pos) (pos + 4)

/-- The event behind the block size, in front of the header. -/
def started (data : List UInt8) : DecodedEvent :=
  { invalid with rawData := data, isValid := true, pos := 4 }

/-- The positions of a whole construction, in the order in which they are taken. -/
def positions (data : List UInt8) : List Nat :=
  if data.length < 4 ∨ sizeAt data 0 ≠ data.length ∨
      data.length < getValidDataMinimumByteCount ∨ data.length > maxBlockSize then [0]
  else
    match (started data).parseHeader data.length with
    | none => [0, 4]
    | some headed =>
      0 :: 4 :: (4 + HiSysEventHeader.size) :: headed.pos :: customizedPositions data headed.pos

/-- Positions that never decrease, from one bound to the other. -/
structure Rising (low high : Nat) (positions : List Nat) : Prop where
  ordered : positions.Pairwise (· ≤ ·)
  above : ∀ pos ∈ positions, low ≤ pos
  below : ∀ pos ∈ positions, pos ≤ high

theorem rising_nil (low high : Nat) : Rising low high [] :=
  ⟨List.Pairwise.nil, fun _ member => absurd member not_mem_nil,
    fun _ member => absurd member not_mem_nil⟩

theorem Rising.cons {low high pos : Nat} {rest : List Nat} (rising : Rising pos high rest)
    (from_low : low ≤ pos) (inside : pos ≤ high) : Rising low high (pos :: rest) := by
  refine ⟨pairwise_cons.mpr ⟨rising.above, rising.ordered⟩, ?_, ?_⟩
  · exact forall_mem_cons.mpr ⟨from_low, fun other later => from_low.trans (rising.above other later)⟩
  · exact forall_mem_cons.mpr ⟨inside, rising.below⟩

theorem rising_single {low high pos : Nat} (from_low : low ≤ pos) (inside : pos ≤ high) :
    Rising low high [pos] := (rising_nil pos high).cons from_low inside

/-- What the loop over at most `count` parameters leaves of an event. -/
structure LoopSafe (count : Nat) (event next : DecodedEvent) (visited : List Nat) : Prop where
  rising : Rising event.pos event.rawData.length visited
  stands : next.pos ∈ event.pos :: visited
  few : next.allParams.length ≤ event.allParams.length + count
  bounded : (∀ param ∈ event.allParams, param.value.Bounded) →
    ∀ param ∈ next.allParams, param.value.Bounded

theorem paramHead_forward : paramHead.Forward :=
  stringValueDecoded_forward.andThen fun key => valueTypeDecoded_forward.andThen fun type =>
    forward_pure (key, type)

/-- One round takes a parameter and hands its position to the next round. -/
theorem parseParams_safe (count : Nat) (event : DecodedEvent)
    (inside : event.pos ≤ event.rawData.length) (small : event.rawData.length < 2 ^ 63) :
    ∃ next, parseParams event.rawData.length count event = some next ∧
      LoopSafe count event next
        (paramPositions event.rawData event.rawData.length count event.pos) := by
  induction count generalizing event with
  | zero =>
    exact ⟨event, rfl, rising_nil _ _, mem_cons_self, Nat.le_refl _, fun held => held⟩
  | succ count ih =>
    have headed := paramHead_forward event.rawData event.pos inside small
    rw [parseParams, paramPositions]
    cases head : paramHead event.rawData event.rawData.length event.pos with
    | fault =>
      rw [head] at headed
      exact headed.elim
    | failed pos =>
      rw [head] at headed
      exact ⟨_, rfl, rising_single headed.1 headed.2, mem_cons_of_mem _ mem_cons_self,
        Nat.le_add_right _ _, fun held => held⟩
    | done pos found =>
      obtain ⟨key, type⟩ := found
      rw [head] at headed
      dsimp only
      cases created : decodeValue type with
      | none =>
        exact ⟨_, rfl, rising_single headed.1 headed.2, mem_cons_of_mem _ mem_cons_self,
          Nat.le_add_right _ _, fun held => held⟩
      | some reader =>
        have forward := decodeValue_forward created event.rawData pos headed.2 small
        dsimp only
        cases read : reader event.rawData event.rawData.length pos with
        | fault =>
          rw [read] at forward
          exact forward.elim
        | failed stopped =>
          rw [read] at forward
          exact ⟨_, rfl, (rising_single forward.1 forward.2).cons headed.1 headed.2,
            mem_cons_of_mem _ mem_cons_self, Nat.le_add_right _ _, fun held => held⟩
        | done next value =>
          rw [read] at forward
          obtain ⟨final, parsed, rising, stands, few, bounded⟩ :=
            ih { event with pos := next, allParams := event.allParams ++ [⟨key, value⟩] }
              forward.2 small
          have valueBounded := decodeValue_bounded created read
          refine ⟨final, parsed, (rising.cons forward.1 forward.2).cons headed.1 headed.2,
            mem_cons_of_mem _ (mem_cons_of_mem _ stands), ?_, fun held => bounded ?_⟩
          · rw [length_append, length_singleton] at few
            omega
          · exact forall_mem_append.mpr ⟨held, forall_mem_singleton.mpr valueBounded⟩

variable {event : DecodedEvent}

theorem parseHeader_safe (room : event.pos + size ≤ event.rawData.length) :
    ∃ next, event.parseHeader event.rawData.length = some next ∧
      next.rawData = event.rawData ∧ next.allParams = event.allParams ∧
      event.pos + size ≤ next.pos ∧ next.pos ≤ event.rawData.length := by
  rw [parseHeader, if_neg (Nat.not_lt.mpr room), overlay_eq room]
  simp
  split
  · split
    · exact ⟨_, rfl, rfl, rfl, Nat.le_refl _, room⟩
    · rename_i traceRoom
      rw [overlay_eq (Nat.le_of_not_lt traceRoom)]
      exact ⟨_, rfl, rfl, rfl, Nat.le_add_right _ _, Nat.le_of_not_lt traceRoom⟩
  · exact ⟨_, rfl, rfl, rfl, Nat.le_refl _, room⟩

/-- What the construction of an event from any bytes guarantees. -/
structure Safe (data : List UInt8) (event : DecodedEvent) : Prop where
  rising : Rising 0 data.length (positions data)
  stands : event.pos ∈ positions data
  few : event.allParams.length ≤ maxParamCnt
  bounded : ∀ param ∈ event.allParams, param.value.Bounded
  complete : event.isValid = true →
    countPos event.header + 4 ≤ data.length ∧
      event.allParams.length = sizeAt data (countPos event.header) ∧
      paramDecoded.repeated (sizeAt data (countPos event.header)) data data.length
        (countPos event.header + 4) = .done event.pos event.allParams

variable {data : List UInt8}

theorem parseCustomizedParams_safe (small : event.rawData.length < 2 ^ 63) :
    ∃ next, event.parseCustomizedParams event.rawData.length = some next ∧
      LoopSafe maxParamCnt event next (customizedPositions event.rawData event.pos) := by
  have stays : LoopSafe maxParamCnt event { event with isValid := false } [] :=
    ⟨rising_nil _ _, mem_cons_self, Nat.le_add_right _ _, fun held => held⟩
  rw [parseCustomizedParams, customizedPositions]
  by_cases short : event.pos + 4 > event.rawData.length
  · rw [if_pos short, if_pos (Or.inl short)]
    exact ⟨_, rfl, stays⟩
  rw [if_neg short, overlay_eq (Nat.le_of_not_lt short)]
  by_cases many : sizeAt event.rawData event.pos > maxParamCnt
  · rw [if_pos (Or.inr many)]
    exact ⟨_, if_pos many, stays⟩
  rw [if_neg (not_or.mpr ⟨short, many⟩)]
  obtain ⟨next, parsed, rising, stands, few, bounded⟩ :=
    parseParams_safe (sizeAt event.rawData event.pos) { event with pos := event.pos + 4 }
      (Nat.le_of_not_lt short) small
  refine ⟨next, (if_neg many).trans parsed,
    rising.cons (Nat.le_add_right _ _) (Nat.le_of_not_lt short), mem_cons_of_mem _ stands, ?_,
    bounded⟩
  exact few.trans (Nat.add_le_add_left (Nat.le_of_not_lt many) _)

theorem invalid_safe (still : positions data = [0]) : Safe data invalid := by
  refine ⟨?_, ?_, Nat.zero_le _, fun param member => absurd member not_mem_nil,
    fun valid => absurd valid Bool.false_ne_true⟩
  · rw [still]
    exact rising_single (Nat.le_refl 0) (Nat.zero_le _)
  · rw [still]
    exact mem_singleton.mpr rfl

/-- The construction once the checks on the size have passed. -/
theorem parse_safe (long : ¬ data.length < 4) (sized : sizeAt data 0 = data.length)
    (minimum : ¬ data.length < getValidDataMinimumByteCount) (maximum : ¬ data.length > maxBlockSize) :
    ∃ event, new data = some event ∧ Safe data event := by
  have word : overlay data 0 4 = some ((data.drop 0).take 4) := overlay_eq (Nat.le_of_not_lt long)
  have wordSized : sizeOfInt32 (Bytes.value ((data.drop 0).take 4)) = data.length := sized
  have small : data.length < 2 ^ 63 := by
    rw [maxBlockSize] at maximum
    omega
  have room : 4 + size ≤ data.length := Nat.le_of_not_lt minimum
  have accepted : ¬ (data.length ≠ data.length ∨ data.length < getValidDataMinimumByteCount ∨
      data.length > maxBlockSize) := by omega
  obtain ⟨headed, header, source, noParams, forward, inside⟩ := @parseHeader_safe (started data) room
  subst source
  obtain ⟨event, parsed, rising, stands, few, bounded⟩ := parseCustomizedParams_safe small
  have opened : new headed.rawData = some event := by
    simp only [new, if_neg long, word, wordSized, Option.bind_eq_bind, Option.bind_some,
      if_neg accepted, parse, Nat.zero_add]
    exact (congrArg (Option.bind · _) header).trans parsed
  have trail : positions headed.rawData = 0 :: 4 :: (4 + size) :: headed.pos ::
      customizedPositions headed.rawData headed.pos := by
    have checked : ¬ (headed.rawData.length < 4 ∨ sizeAt headed.rawData 0 ≠ headed.rawData.length ∨
        headed.rawData.length < getValidDataMinimumByteCount ∨
        headed.rawData.length > maxBlockSize) := by omega
    have found : (started headed.rawData).parseHeader headed.rawData.length = some headed := header
    rw [positions, if_neg checked, found]
  rw [noParams] at few bounded
  refine ⟨event, opened, ?_, ?_, few.trans_eq (Nat.zero_add _),
    bounded fun param member => absurd member not_mem_nil, fun valid => ?_⟩
  · rw [trail]
    exact (((rising.cons forward inside).cons (Nat.le_add_right 4 _) room).cons (Nat.zero_le 4)
      (Nat.le_of_not_lt long)).cons (Nat.le_refl 0) (Nat.zero_le _)
  · rw [trail]
    exact mem_cons_of_mem _ (mem_cons_of_mem _ (mem_cons_of_mem _ stands))
  · have layout := layout_of_valid opened valid
    exact ⟨layout.room, Reader.repeated_length layout.params, layout.params⟩

theorem new_safe (data : List UInt8) : ∃ event, new data = some event ∧ Safe data event := by
  by_cases short : data.length < 4
  · exact ⟨invalid, by rw [new, if_pos short]; rfl, invalid_safe (if_pos (Or.inl short))⟩
  have word : overlay data 0 4 = some ((data.drop 0).take 4) := overlay_eq (Nat.le_of_not_lt short)
  by_cases wrong : sizeAt data 0 ≠ data.length ∨
      data.length < getValidDataMinimumByteCount ∨ data.length > maxBlockSize
  · have refused : sizeAt data 0 ≠ data.length ∨
        sizeAt data 0 < getValidDataMinimumByteCount ∨ sizeAt data 0 > maxBlockSize := by omega
    have opened : new data = some invalid := by
      rw [new, if_neg short, word]
      exact if_pos refused
    exact ⟨invalid, opened, invalid_safe (if_pos (Or.inr wrong))⟩
  obtain ⟨sized, rest⟩ := not_or.mp wrong
  obtain ⟨minimum, maximum⟩ := not_or.mp rest
  exact parse_safe short (Decidable.not_not.mp sized) minimum maximum

/-- The functions of `RawDataDecoder` and of the parameter classes. -/
structure ReadersForward : Prop where
  unsignedVarint : unsignedVarintDecoded.Forward
  signedVarint : signedVarintDecoded.Forward
  floatingNumber : floatingNumberDecoded.Forward
  stringValue : stringValueDecoded.Forward
  valueType : valueTypeDecoded.Forward
  value : ∀ type reader, decodeValue type = some reader → reader.Forward

/-- Any bytes are decoded inside the block, forward only, into a bounded number
of bounded values, and an event is valid only with all its parameters. -/
theorem decoder_safe (data : List UInt8) :
    ReadersForward ∧ ∃ event, new data = some event ∧ Safe data event := by
  refine ⟨⟨unsignedVarintDecoded_forward, signedVarintDecoded_forward,
    floatingNumberDecoded_forward, stringValueDecoded_forward, valueTypeDecoded_forward, ?_⟩,
    new_safe data⟩
  intro type reader created
  exact decodeValue_forward created

end DecodedEvent
end Hiview.EventRaw
