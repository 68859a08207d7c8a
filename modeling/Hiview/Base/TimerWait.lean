import Hiview.Base.EventLoop

/-! How long the event loop waits, compared with the time to the earliest event. The
number of nanoseconds that stands for an empty queue can also be a time to wait, and the
milliseconds need not fit into an `int`. -/
namespace Hiview.Base.EventLoop
open List Option
variable {queue : List LoopEvent} {event : LoopEvent} {now : UInt64}

theorem top_eq_none : top queue = none ↔ queue = [] :=
  argmin_eq_none

theorem top_mem (isTop : top queue = some event) : event ∈ queue :=
  argmin_mem isTop

theorem top_le (isTop : top queue = some event) (member : other ∈ queue) :
    event.targetTime.toNat ≤ other.targetTime.toNat :=
  le_of_mem_argmin (f := fun event : LoopEvent => event.targetTime.toNat) member isTop

def LoopEvent.ahead (event : LoopEvent) (now : UInt64) : Nat :=
  event.targetTime.toNat - now.toNat

/-- A timeout that neither misses an event of the queue nor makes the loop spin. -/
structure NeverLate (look : Look) (timeout : Int) : Prop where
  nonneg : 0 ≤ timeout
  inTime : ∀ now event, look.now = some now → event ∈ look.queue → timeout * 1000000 ≤ event.ahead now
  unlimited : timeout = 2147483647 → look.queue = []
  noSpin : ∀ now, look.now = some now → look.queue ≠ [] → (∀ event ∈ look.queue, 1000000 ≤ event.ahead now) →
    0 < timeout

/-- The time to the earliest event is not the mark of an empty queue, and its milliseconds
are sound once they are cut to 32 bits. A loop that quits does not wait any more. -/
def Representable (look : Look) : Prop :=
  ∀ now event, look.now = some now → top look.queue = some event →
    if look.needQuit then event.ahead now < 1000000
    else event.ahead now ≠ 2147483647 ∧ event.ahead now / 1000000 % 4294967296 < 2147483647 ∧
      (1000000 ≤ event.ahead now → event.ahead now / 1000000 % 4294967296 ≠ 0)

/-- What a look can come to. -/
inductive Waits : Wait → Prop where
  | empty : Waits ⟨intMax, ⟨[], none, false⟩⟩
  | quits (queue : List LoopEvent) (now : UInt64) : Waits ⟨0, ⟨queue, some now, true⟩⟩
  | vanished (now : UInt64) : Waits ⟨0, ⟨[], some now, false⟩⟩
  | waits {queue : List LoopEvent} {event : LoopEvent} {now : UInt64} (isTop : top queue = some event)
      (ahead : now < event.targetTime) : Waits ⟨event.targetTime - now, ⟨queue, some now, false⟩⟩

theorem fetchNextEvent_waits (fetched : fetchNextEvent needQuit now 0 queue = .nothing left) :
    Waits ⟨left, ⟨queue, some now, needQuit⟩⟩ := by
  unfold fetchNextEvent at fetched
  cases needQuit with
  | true =>
    cases fetched
    exact .quits queue now
  | false =>
    rw [if_neg Bool.false_ne_true] at fetched
    split at fetched
    · case h_1 isTop =>
      cases fetched
      rw [top_eq_none.mp isTop]
      exact .vanished now
    · case h_2 event isTop =>
      split at fetched
      · case isTrue ahead =>
        cases fetched
        exact .waits isTop ahead
      · cases fetched

theorem processQueuedEvent_waits (looked : processQueuedEvent rounds queue = some wait) : Waits wait := by
  fun_induction processQueuedEvent rounds queue with
  | case1 =>
    cases looked
    exact .empty
  | case2 => cases looked
  | case3 _ _ _ _ _ _ fetched =>
    cases looked
    exact fetchNextEvent_waits fetched
  | case4 _ _ _ _ _ _ _ _ ih => exact ih looked

theorem run_waits (reached : wait ∈ run turns queue) : Waits wait := by
  fun_induction run turns queue with
  | case3 turn rest queue first looked ih =>
    obtain rfl | later := mem_cons.mp reached
    · exact processQueuedEvent_waits looked
    · split at later
      · cases later
      · exact ih later
  | _ => cases reached

theorem leftTimeMill_toNat (left : UInt64) :
    (leftTimeMill left).toNat = if left.toNat = 2147483647 then 2147483647 else left.toNat / 1000000 := by
  have value : intMax.toNat = 2147483647 := rfl
  unfold leftTimeMill
  by_cases mark : left = intMax
  · rw [if_neg (not_not.mpr mark), mark, value, if_pos (Eq.refl 2147483647)]
  · have different : left.toNat ≠ 2147483647 := by
      intro same
      exact mark (UInt64.toNat_inj.mp (same.trans value.symm))
    rw [if_pos mark, if_neg different]
    exact UInt64.toNat_div left millisecToNanosec

theorem timeout_eq (wait : Wait) :
    wait.timeout = (((if wait.leftTimeNanosecond.toNat = 2147483647 then 2147483647
      else wait.leftTimeNanosecond.toNat / 1000000 : Nat) : Int)).bmod 4294967296 := by
  unfold Wait.timeout toInt
  exact congrArg (fun value : Nat => (value : Int).bmod 4294967296) (leftTimeMill_toNat _)

theorem neverLate_waits_iff (isTop : top queue = some event) (ahead : now < event.targetTime) :
    NeverLate ⟨queue, some now, false⟩ (Wait.timeout ⟨event.targetTime - now, ⟨queue, some now, false⟩⟩) ↔
      Representable ⟨queue, some now, false⟩ := by
  have left : (event.targetTime - now).toNat = event.ahead now := UInt64.toNat_sub_of_le _ _ (UInt64.le_of_lt ahead)
  have timeout : Wait.timeout ⟨event.targetTime - now, ⟨queue, some now, false⟩⟩ = _ := timeout_eq _
  rw [left, Int.bmod_def] at timeout
  have filled : queue ≠ [] := ne_nil_of_mem (top_mem isTop)
  generalize Wait.timeout ⟨event.targetTime - now, ⟨queue, some now, false⟩⟩ = waited at timeout ⊢
  constructor
  · intro never
    rintro now' event' ⟨⟩ isTop'
    obtain rfl := some_inj.mp (isTop.symm.trans isTop')
    have limited : waited ≠ 2147483647 := fun same => filled (never.unlimited same)
    have spins : 1000000 ≤ event.ahead now → 0 < waited := by
      intro far
      apply never.noSpin now rfl filled
      intro other member
      exact far.trans (Nat.sub_le_sub_right (top_le isTop member) _)
    refine ⟨?_, ?_, ?_⟩
    · intro mark
      rw [if_pos mark] at timeout
      omega
    · split at timeout <;> split at timeout <;> omega
    · split at timeout <;> split at timeout <;> omega
  · intro representable
    have plain := representable now event rfl isTop
    obtain ⟨notMark, small, positive⟩ := plain
    rw [if_neg notMark, if_pos (by omega)] at timeout
    refine ⟨by omega, ?_, by omega, ?_⟩
    · rintro now' other ⟨⟩ member
      have later : event.ahead now ≤ other.ahead now := Nat.sub_le_sub_right (top_le isTop member) _
      omega
    · rintro now' ⟨⟩ _ far
      have nonzero := positive (far event (top_mem isTop))
      omega

theorem neverLate_quits_iff (queue : List LoopEvent) (now : UInt64) :
    NeverLate ⟨queue, some now, true⟩ 0 ↔ Representable ⟨queue, some now, true⟩ := by
  constructor
  · intro never
    rintro now' event ⟨⟩ isTop
    by_contra far
    refine absurd (never.noSpin now rfl (ne_nil_of_mem (top_mem isTop)) ?_) (Int.lt_irrefl 0)
    intro other member
    exact (Nat.le_of_not_lt far).trans (Nat.sub_le_sub_right (top_le isTop member) _)
  · intro representable
    refine ⟨Int.le_refl 0, ?_, ?_, ?_⟩
    · intro now' event _ _
      exact Int.natCast_nonneg _
    · intro unlimited
      cases unlimited
    · rintro now' ⟨⟩ nonempty far
      obtain ⟨event, isTop⟩ := ne_none_iff_exists'.mp (mt top_eq_none.mp nonempty)
      have near := representable now event rfl isTop
      exact absurd (far event (top_mem isTop)) (Nat.not_le_of_lt near)

theorem neverLate_empty (now : Option UInt64) (needQuit : Bool) (nonneg : 0 ≤ timeout) :
    NeverLate ⟨[], now, needQuit⟩ timeout where
  nonneg := nonneg
  inTime _ _ _ member := absurd member not_mem_nil
  unlimited _ := rfl
  noSpin _ _ nonempty := absurd rfl nonempty

theorem representable_empty (now : Option UInt64) (needQuit : Bool) : Representable ⟨[], now, needQuit⟩ := by
  intro _ event _ isTop
  cases top_mem isTop

theorem toInt_intMax : 0 ≤ toInt (leftTimeMill intMax) := by
  decide +kernel

theorem toInt_zero : toInt (leftTimeMill 0) = 0 := by
  decide +kernel

/-- For every wait of every run, whatever happens to the queue meanwhile. -/
theorem timeout_neverLate_iff (turns : List Turn) (queue : List LoopEvent) (wait : Wait)
    (reached : wait ∈ run turns queue) : NeverLate wait.look wait.timeout ↔ Representable wait.look := by
  cases run_waits reached with
  | empty => exact iff_of_true (neverLate_empty _ _ toInt_intMax) (representable_empty _ _)
  | quits queue now =>
    rw [Wait.timeout, toInt_zero]
    exact neverLate_quits_iff queue now
  | vanished now => exact iff_of_true (neverLate_empty _ _ toInt_zero.ge) (representable_empty _ _)
  | waits isTop ahead => exact neverLate_waits_iff isTop ahead

/-- A turn that finds nothing due at time zero. -/
def sampleTurn : Turn := { rounds := [{ now := 0 }] }

theorem timeout_neverLate_iff_second :
    ∃ wait ∈ run [sampleTurn] [{ seq := 1, targetTime := 1000000000 }], wait.timeout = 1000 ∧
      (NeverLate wait.look wait.timeout ↔ Representable wait.look) := by
  refine ⟨_, mem_singleton_self _, by decide +kernel, ?_⟩
  exact timeout_neverLate_iff [sampleTurn] [{ seq := 1, targetTime := 1000000000 }] _
    (mem_singleton_self _)

/-- The timeout for one event, so many nanoseconds ahead. -/
def soleTimeout (ahead : UInt64) : List Int :=
  (run [sampleTurn] [{ seq := 1, targetTime := ahead }]).map Wait.timeout

/-- Two seconds and a bit become the wait for an empty queue; more than 24 days become
negative, and 49 days become no wait at all. -/
theorem soleTimeout_late :
    soleTimeout 2147483646 = [2147] ∧ soleTimeout 2147483647 = [2147483647] ∧
      soleTimeout 2147483648000000 = [-2147483648] ∧ soleTimeout 4294967296000000 = [0] ∧
      ¬ ∀ wait ∈ run [sampleTurn] [{ seq := 1, targetTime := 2147483647 }], NeverLate wait.look wait.timeout := by
  refine ⟨by decide +kernel, by decide +kernel, by decide +kernel, by decide +kernel, ?_⟩
  intro always
  have never := always _ (mem_singleton_self _)
  exact absurd (never.unlimited (by decide +kernel)) (cons_ne_nil _ _)

end Hiview.Base.EventLoop
