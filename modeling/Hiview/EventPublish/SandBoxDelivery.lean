import Hiview.EventPublish.PushEvent
import Hiview.Lib.Ledger
import Mathlib.Data.Multiset.OrderedMonoid

/-! What becomes of the published events. Every event that is pushed is in a file of its
sandbox, in a temporary file or in the hands of the thread for resource events, unless a step
has lost it: a resource event that finds the thread busy, or the events of a file that is
opened for a copy. -/
namespace Hiview.EventPublish
open Transition
open List
variable {Params : Type} {sandBoxes : Int → Option SandBox} {state next : State Params}

def Saved.content (event : Saved Params) : Int × EventJson Params :=
  (event.uid, event.event)

/-- The event of a thread that has not written it yet. -/
def pending : Option (OverLimit Params) → List (Int × EventJson Params)
  | some ⟨uid, event, false⟩ => [(uid, event)]
  | _ => []

def State.published (state : State Params) : Multiset (Int × EventJson Params) :=
  (state.saved.map Saved.content : List _)

def State.held (state : State Params) : Multiset (Int × EventJson Params) :=
  state.published + (state.temp : Multiset _) + (pending state.overLimit : Multiset _)

def pushed (sandBoxes : Int → Option SandBox) (_ : State Params) : Step Params → Multiset (Int × EventJson Params)
  | .pushEvent request _ =>
    match accepted sandBoxes request with
    | some event => {(request.uid, event)}
    | none => 0
  | _ => 0

/-- The events in the destination of the file that is being sent. -/
def overwritten (state : State Params) : List (Saved Params) :=
  match state.sending with
  | some ⟨milliseconds, uid :: _, _⟩ => state.saved.filter (·.inFile uid milliseconds)
  | _ => []

def lost (sandBoxes : Int → Option SandBox) (state : State Params) : Step Params → Multiset (Int × EventJson Params)
  | .pushEvent request _ =>
    match accepted sandBoxes request with
    | some event => if event.name = .resourceOverlimit ∧ state.overLimit.isSome then {(request.uid, event)} else 0
    | none => 0
  | .sendNext => ((overwritten state).map Saved.content : List _)
  | _ => 0

/-- No resource event is pushed while the thread for them runs, and no file is opened for a
copy or written by it while there are events in it. -/
def Keeps (sandBoxes : Int → Option SandBox) (state : State Params) : Step Params → Prop
  | .pushEvent request _ =>
    ∀ event ∈ accepted sandBoxes request, event.name = .resourceOverlimit → state.overLimit.isNone
  | .sendNext => overwritten state = []
  | _ => True

instance (state : State Params) : (label : Step Params) → Decidable (Keeps sandBoxes state label)
  | .pushEvent request _ =>
    inferInstanceAs (Decidable (∀ event ∈ accepted sandBoxes request,
      event.name = .resourceOverlimit → state.overLimit.isNone))
  | .sendNext => decidable_of_iff ((overwritten state).isEmpty = true) List.isEmpty_iff
  | .saveOverLimitEvent _ => .isTrue trivial
  | .resetOverLimitThread => .isTrue trivial
  | .startSending _ _ => .isTrue trivial

structure Sound (sandBoxes : Int → Option SandBox) (state : State Params) : Prop where
  present : ∀ event ∈ state.temp, (sandBoxes event.1).isSome
  started : state.temp ≠ [] → state.sendingThread = true
  listed : ∀ sending ∈ state.sending,
    (∀ uid ∈ sending.files, (sandBoxes uid).isSome) ∧ ∀ event ∈ state.temp, event.1 ∈ sending.files

theorem initial_sound : Sound sandBoxes (initial Params) where
  present := by simp [initial]
  started := by simp [initial]
  listed := by simp [initial]

theorem accepted_present {request : Request Params} {event : EventJson Params}
    (passed : accepted sandBoxes request = some event) : (sandBoxes request.uid).isSome := by
  unfold accepted at passed
  cases found : sandBoxes request.uid with
  | none => simp [found] at passed
  | some sandBox => rfl

variable {temp : List (Int × EventJson Params)} {uid : Int}

theorem mem_removed {event : Int × EventJson Params} : event ∈ removed temp uid ↔ event ∈ temp ∧ event.1 ≠ uid := by
  simp [removed]

theorem removed_absent (absent : ∀ event ∈ temp, event.1 ≠ uid) : removed temp uid = temp := by
  apply filter_eq_self.mpr
  intro event member
  simpa using absent event member

variable (sound : Sound sandBoxes state)
include sound

theorem Sound.rejected_eq (request : Request Params) :
    rejected sandBoxes state request = state := by
  unfold rejected
  split
  · rfl
  · split
    · rename_i missing
      have absent : ∀ event ∈ state.temp, event.1 ≠ request.uid := by
        intro event member same
        have found := sound.present event member
        rw [same, missing] at found
        cases found
      rw [removed_absent absent]
    · rfl

theorem Sound.removed {rest : List Int} {milliseconds : Nat} {opened : Bool}
    (sending : state.sending = some ⟨milliseconds, uid :: rest, opened⟩) (saved : List (Saved Params))
    (opening : Bool) :
    Sound sandBoxes { state with
      saved := saved, temp := removed state.temp uid, sending := some ⟨milliseconds, rest, opening⟩ } where
  present event member := sound.present event (mem_removed.mp member).1
  started some_left := by
    apply sound.started
    intro none_left
    apply some_left
    simp [EventPublish.removed, none_left]
  listed := by
    intro current same
    cases same
    obtain ⟨present, covered⟩ := sound.listed _ sending
    refine ⟨fun other member => present other (mem_cons_of_mem _ member), ?_⟩
    intro event member
    obtain ⟨there, other⟩ := mem_removed.mp member
    exact (mem_cons.mp (covered event there)).resolve_left other

theorem Sound.publish (free : state.sending = none) (present : (sandBoxes uid).isSome)
    (event : EventJson Params) (milliseconds : Nat) : Sound sandBoxes (publish state uid event milliseconds) := by
  unfold EventPublish.publish
  split
  · exact ⟨sound.present, sound.started, sound.listed⟩
  · split
    · unfold startOverLimitThread
      split
      · exact sound
      · exact ⟨sound.present, sound.started, sound.listed⟩
    · refine ⟨?_, fun _ => rfl, ?_⟩
      · exact forall_mem_append.mpr ⟨sound.present, forall_mem_singleton.mpr present⟩
      · intro sending same
        rw [show state.sending = some sending from same] at free
        cases free

variable {sending : Sending}

theorem Sound.sendNext (active : state.sending = some sending) :
    Sound sandBoxes (sendNext sandBoxes state sending) := by
  obtain ⟨milliseconds, files, opened⟩ := sending
  obtain ⟨present, covered⟩ := sound.listed _ active
  unfold EventPublish.sendNext
  cases files with
  | nil =>
    refine ⟨sound.present, ?_, ?_⟩
    · intro some_left
      obtain ⟨event, member⟩ := exists_mem_of_ne_nil _ some_left
      exact absurd (covered event member) not_mem_nil
    · intro current same
      cases same
  | cons uid rest =>
    dsimp only
    split
    · exact sound.removed active state.saved opened
    · split
      · exact sound.removed active _ false
      · refine ⟨sound.present, sound.started, ?_⟩
        intro current same
        cases same
        exact ⟨present, covered⟩

omit sound

inductive Moved (sandBoxes : Int → Option SandBox) (state : State Params) : Step Params → State Params → Prop
  | rejected (request : Request Params) (milliseconds : Nat) (failed : accepted sandBoxes request = none) :
    Moved sandBoxes state (.pushEvent request milliseconds) (rejected sandBoxes state request)
  | published (request : Request Params) (milliseconds : Nat) (event : EventJson Params)
    (passed : accepted sandBoxes request = some event) (free : state.sending = none) :
    Moved sandBoxes state (.pushEvent request milliseconds) (publish state request.uid event milliseconds)
  | saved (milliseconds : Nat) (uid : Int) (event : EventJson Params)
    (running : state.overLimit = some ⟨uid, event, false⟩) :
    Moved sandBoxes state (.saveOverLimitEvent milliseconds)
      { saveEventToSandBox state uid event milliseconds with overLimit := some ⟨uid, event, true⟩ }
  | reset (uid : Int) (event : EventJson Params) (running : state.overLimit = some ⟨uid, event, true⟩) :
    Moved sandBoxes state .resetOverLimitThread { state with overLimit := none }
  | listed (milliseconds : Nat) (files : List Int) (started : state.sendingThread = true)
    (free : state.sending = none) (lists : Lists state.temp files) :
    Moved sandBoxes state (.startSending milliseconds files)
      { state with sending := some ⟨milliseconds, files, false⟩ }
  | sent (sending : Sending) (active : state.sending = some sending) :
    Moved sandBoxes state .sendNext (sendNext sandBoxes state sending)

variable {label : Step Params}

theorem step_moved (stepped : step sandBoxes state label = some next) : Moved sandBoxes state label next := by
  cases label with
  | pushEvent request milliseconds =>
    simp only [step, pushEvent] at stepped
    split at stepped
    · rename_i failed
      cases stepped
      exact .rejected request milliseconds failed
    · rename_i event passed
      split at stepped
      · cases stepped
      · rename_i free
        cases stepped
        exact .published request milliseconds event passed free
  | saveOverLimitEvent milliseconds =>
    simp only [step, saveOverLimitEvent] at stepped
    split at stepped
    · rename_i uid event running
      cases stepped
      exact .saved milliseconds uid event running
    · cases stepped
  | resetOverLimitThread =>
    simp only [step, resetOverLimitThread] at stepped
    split at stepped
    · rename_i uid event running free
      cases stepped
      exact .reset uid event running
    · cases stepped
  | startSending milliseconds files =>
    simp only [step, startSending] at stepped
    split at stepped
    · rename_i ready
      cases stepped
      exact .listed milliseconds files ready.1 (Option.isNone_iff_eq_none.mp ready.2.1) ready.2.2
    · cases stepped
  | sendNext =>
    obtain ⟨sending, active, same⟩ := Option.map_eq_some_iff.mp stepped
    subst same
    exact .sent sending active

theorem step_sound (sound : Sound sandBoxes state) (stepped : step sandBoxes state label = some next) :
    Sound sandBoxes next := by
  cases step_moved stepped with
  | rejected request milliseconds failed =>
    rw [sound.rejected_eq]
    exact sound
  | published request milliseconds event passed free =>
    exact sound.publish free (accepted_present passed) event milliseconds
  | saved milliseconds uid event running | reset uid event running => exact ⟨sound.present, sound.started, sound.listed⟩
  | listed milliseconds files started free lists =>
    refine ⟨sound.present, sound.started, ?_⟩
    intro sending same
    cases same
    refine ⟨?_, fun event member => lists.2.2 _ (mem_map_of_mem member)⟩
    intro uid member
    obtain ⟨event, there, same⟩ := mem_map.mp (lists.2.1 uid member)
    subst same
    exact sound.present event there
  | sent sending active => exact sound.sendNext active

theorem emptied_balance (saved : List (Saved Params)) (uid : Int) (milliseconds : Nat) :
    (((emptied saved uid milliseconds).map Saved.content : List _) : Multiset (Int × EventJson Params)) +
      ((saved.filter (·.inFile uid milliseconds)).map Saved.content : List _) =
      (saved.map Saved.content : List _) := by
  rw [Multiset.coe_add, ← map_append]
  refine Multiset.coe_eq_coe.mpr (List.Perm.map _ ?_)
  exact perm_append_comm.trans (filter_append_perm _ saved)

theorem removed_balance (temp : List (Int × EventJson Params)) (uid : Int) :
    ((removed temp uid : List _) : Multiset (Int × EventJson Params)) + (tempFile temp uid : List _) =
      (temp : List _) := by
  exact Multiset.coe_eq_coe.mpr (perm_append_comm.trans (filter_append_perm _ temp))

theorem copied_content (temp : List (Int × EventJson Params)) (uid : Int) (milliseconds : Nat) :
    ((tempFile temp uid).map fun event => (⟨uid, milliseconds, event.2⟩ : Saved Params)).map Saved.content =
      tempFile temp uid := by
  rw [map_map]
  refine map_congr_left ?_ |>.trans (map_id _)
  rintro ⟨owner, event⟩ member
  have same : owner = uid := by simpa [tempFile] using (mem_filter.mp member).2
  subst same
  rfl

theorem sendNext_balance (sound : Sound sandBoxes state) (active : state.sending = some sending) :
    (sendNext sandBoxes state sending).held + ((overwritten state).map Saved.content : List _) = state.held := by
  obtain ⟨milliseconds, files, opened⟩ := sending
  cases files with
  | nil => simp [sendNext, overwritten, active, State.held, State.published]
  | cons uid rest =>
    obtain ⟨sandBox, found⟩ := Option.isSome_iff_exists.mp ((sound.listed _ active).1 uid mem_cons_self)
    have gone := emptied_balance state.saved uid milliseconds
    have moved := removed_balance state.temp uid
    simp only [sendNext, overwritten, active, found, State.held, State.published]
    split
    · simp only [map_append, copied_content, ← Multiset.coe_add, ← gone, ← moved]
      ac_rfl
    · simp only [← gone]
      ac_rfl

theorem publish_balance (state : State Params) (uid : Int) (event : EventJson Params) (milliseconds : Nat) :
    (publish state uid event milliseconds).held +
      (if event.name = .resourceOverlimit ∧ state.overLimit.isSome then {(uid, event)} else 0) =
      state.held + {(uid, event)} := by
  unfold publish
  split
  · rename_i ordinary
    have other : event.name ≠ .resourceOverlimit := by
      intro same
      exact ordinary (same ▸ mem_cons_self)
    simp [saveEventToSandBox, State.held, State.published, other, Saved.content, ← Multiset.coe_add,
      Multiset.coe_singleton]
    ac_rfl
  · split
    · rename_i resource
      cases running : state.overLimit with
      | some thread => simp [startOverLimitThread, running, resource]
      | none => simp [startOverLimitThread, running, resource, State.held, State.published, pending]
    · rename_i delayed
      simp [startSendingThread, saveEventToTempFile, State.held, State.published, delayed, ← Multiset.coe_add,
        Multiset.coe_singleton]
      ac_rfl

theorem step_balance (sound : Sound sandBoxes state) (stepped : step sandBoxes state label = some next) :
    next.held + lost sandBoxes state label = state.held + pushed sandBoxes state label := by
  cases step_moved stepped with
  | rejected request milliseconds failed => simp [sound.rejected_eq, lost, pushed, failed]
  | published request milliseconds event passed free =>
    simp [lost, pushed, passed]
    exact publish_balance state request.uid event milliseconds
  | saved milliseconds uid event running =>
    simp [lost, pushed, saveEventToSandBox, State.held, State.published, pending, running, Saved.content,
      ← Multiset.coe_add, Multiset.coe_singleton, Multiset.coe_nil]
    ac_rfl
  | reset uid event running => simp [lost, pushed, State.held, State.published, pending, running]
  | listed milliseconds files started free lists => rfl
  | sent sending active =>
    simp [lost, pushed]
    exact sendNext_balance sound active

theorem lost_eq_zero_iff {label : Step Params} : lost sandBoxes state label = 0 ↔ Keeps sandBoxes state label := by
  cases label with
  | pushEvent request milliseconds =>
    simp [lost, Keeps]
    cases passed : accepted sandBoxes request with
    | none => simp
    | some event =>
      simp [forall_eq', ite_eq_right_iff, Multiset.singleton_ne_zero, imp_false, not_and,
        Option.isSome_eq_false_iff]
  | sendNext => simp [lost, Keeps, Multiset.coe_eq_zero, map_eq_nil_iff]
  | saveOverLimitEvent milliseconds => simp [lost, Keeps]
  | resetOverLimitThread => simp [lost, Keeps]
  | startSending milliseconds files => simp [lost, Keeps]

theorem emptied_eq {saved : List (Saved Params)} {milliseconds : Nat}
    (unused : saved.filter (·.inFile uid milliseconds) = []) : emptied saved uid milliseconds = saved := by
  apply filter_eq_self.mpr
  intro event member
  simpa using filter_eq_nil_iff.mp unused event member

theorem step_saved (keeps : Keeps sandBoxes state label) (stepped : step sandBoxes state label = some next) :
    state.saved <+: next.saved := by
  cases step_moved stepped with
  | rejected request milliseconds failed =>
    unfold rejected
    split
    · exact prefix_rfl
    · split <;> exact prefix_rfl
  | published request milliseconds event passed free =>
    unfold publish
    split
    · exact prefix_append _ _
    · split
      · unfold startOverLimitThread
        split <;> exact prefix_rfl
      · exact prefix_rfl
  | saved milliseconds uid event running => exact prefix_append _ _
  | reset uid event running => exact prefix_rfl
  | listed milliseconds files started free lists => exact prefix_rfl
  | sent sending active =>
    obtain ⟨milliseconds, files, opened⟩ := sending
    simp only [Keeps, overwritten, active] at keeps
    unfold sendNext
    cases files with
    | nil => exact prefix_rfl
    | cons uid rest =>
      dsimp only at keeps ⊢
      split
      · exact prefix_rfl
      · split
        · rw [emptied_eq keeps]
          exact prefix_append _ _
        · exact (emptied_eq keeps).symm ▸ prefix_rfl

/-- The steps of the threads, which are not calls. -/
def Step.byThread : Step Params → Bool
  | .pushEvent _ _ => false
  | _ => true

/-- Nothing is under way: every event that is not lost is in a sandbox. -/
structure Settled (state : State Params) : Prop where
  temp : state.temp = []
  pending : pending state.overLimit = []

def overLimitRank : Option (OverLimit Params) → Nat
  | some ⟨_, _, false⟩ => 2
  | some ⟨_, _, true⟩ => 1
  | none => 0

def sendingRank (state : State Params) : Nat :=
  match state.sending with
  | some ⟨_, files, opened⟩ => 2 * files.length + (if opened then 0 else 1) + 1
  | none => if state.sendingThread then 2 * state.temp.length + 3 else 0

/-- How many steps the threads can take without a further call. -/
def State.rank (state : State Params) : Nat :=
  overLimitRank state.overLimit + sendingRank state

theorem Lists.length_le {files : List Int} (lists : Lists temp files) : files.length ≤ temp.length := by
  have fewer := (subperm_of_subset lists.1 lists.2.1).length_le
  rwa [length_map] at fewer

theorem sendNext_rank (active : state.sending = some sending) :
    (sendNext sandBoxes state sending).rank < state.rank := by
  obtain ⟨milliseconds, files, opened⟩ := sending
  unfold sendNext
  cases files with
  | nil => simp [State.rank, sendingRank, active]
  | cons uid rest =>
    dsimp only
    split
    · simp only [State.rank, sendingRank, active, length_cons]
      omega
    · split
      · rename_i isOpen
        simp only [State.rank, sendingRank, active, length_cons, isOpen, if_true]
        simp only [Bool.false_eq_true, if_false]
        omega
      · rename_i closed
        simp only [State.rank, sendingRank, active, length_cons, closed, if_true]
        simp only [Bool.false_eq_true, if_false]
        omega

theorem step_rank (byThread : label.byThread = true) (stepped : step sandBoxes state label = some next) :
    next.rank < state.rank := by
  cases step_moved stepped with
  | rejected request milliseconds failed => cases byThread
  | published request milliseconds event passed free => cases byThread
  | saved milliseconds uid event running =>
    simp [State.rank, overLimitRank, sendingRank, saveEventToSandBox, running]
  | reset uid event running =>
    simp [State.rank, overLimitRank, sendingRank, running]
  | listed milliseconds files started free lists =>
    have fewer := lists.length_le
    simp only [State.rank, sendingRank, free, started, if_true]
    simp only [Bool.false_eq_true, if_false]
    omega
  | sent sending active => exact sendNext_rank active

variable {labels : List (Step Params)} {final : State Params}

theorem run_rank (byThread : ∀ label ∈ labels, label.byThread = true)
    (ran : run (step sandBoxes) state labels = some final) :
    labels.length + final.rank ≤ state.rank := by
  induction labels generalizing state with
  | nil =>
    cases ran
    simp
  | cons label rest ih =>
    obtain ⟨next, stepped, following⟩ := run_cons ran
    obtain ⟨here, later⟩ := forall_mem_cons.mp byThread
    have fewer := step_rank here stepped
    have bound := ih later following
    rw [length_cons]
    omega

theorem settled_of_stuck (sound : Sound sandBoxes state)
    (stuck : ∀ label : Step Params, label.byThread = true → step sandBoxes state label = none) : Settled state := by
  constructor
  · by_contra left
    have free : state.sending = none := Option.map_eq_none_iff.mp (stuck .sendNext rfl)
    have lists : Lists state.temp (state.temp.map Prod.fst).dedup :=
      ⟨nodup_dedup _, fun _ => mem_dedup.mp, fun _ => mem_dedup.mpr⟩
    have blocked := stuck (.startSending 0 (state.temp.map Prod.fst).dedup) rfl
    rw [step, startSending, if_pos ⟨sound.started left, by simp [free], lists⟩] at blocked
    cases blocked
  · have blocked := stuck (.saveOverLimitEvent 0) rfl
    simp only [step, saveOverLimitEvent] at blocked
    unfold pending
    split
    · rename_i running
      rw [running] at blocked
      cases blocked
    · rfl

/-- The threads take finitely many steps without a further call, and stop only when nothing
is under way. -/
def ComesToRest (sandBoxes : Int → Option SandBox) (state : State Params) : Prop :=
  ∃ bound, ∀ more final, (∀ label ∈ more, label.byThread = true) →
    run (step sandBoxes) state more = some final → more.length ≤ bound ∧
      ((∀ label : Step Params, label.byThread = true → step sandBoxes final label = none) → Settled final)

theorem Sound.comesToRest (sound : Sound sandBoxes state) : ComesToRest sandBoxes state := by
  refine ⟨state.rank, ?_⟩
  intro more final byThread ran
  have bound := run_rank byThread ran
  exact ⟨by omega, settled_of_stuck (run_invariant step_sound sound ran)⟩

/-- The files of the sandboxes hold every event that was pushed exactly as often as it was
pushed, and every file still has what it ever had. -/
structure Delivered (sandBoxes : Int → Option SandBox) (labels : List (Step Params)) (final : State Params) :
    Prop where
  once : final.published = total (step sandBoxes) (pushed sandBoxes) (initial Params) labels
  stays : ∀ taken rest earlier, labels = taken ++ rest →
    run (step sandBoxes) (initial Params) taken = some earlier → earlier.saved <+: final.saved

theorem Settled.held_eq (settled : Settled state) : state.held = state.published := by
  simp [State.held, settled.temp, settled.pending]

theorem saved_stays (kept : Guarded (step sandBoxes) (Keeps sandBoxes) state labels)
    (ran : run (step sandBoxes) state labels = some final) : state.saved <+: final.saved :=
  @run_guarded _ _ _ _ (fun current => state.saved <+: current.saved)
    (fun before keeps stepped => before.trans (step_saved keeps stepped)) _ _ _ prefix_rfl kept ran

/-- Once the threads have come to rest, every pushed event is in the sandbox of its application
exactly once, and has stayed there, if and only if no resource event was pushed while the thread for
them was running and no copy was made over a file with events in it. -/
theorem delivered_iff_kept {labels : List (Step Params)} {final : State Params}
    (ran : run (step sandBoxes) (initial Params) labels = some final) :
    ComesToRest sandBoxes final ∧ (Settled final →
      (Delivered sandBoxes labels final ↔
        Guarded (step sandBoxes) (Keeps sandBoxes) (initial Params) labels)) := by
  refine ⟨(run_invariant step_sound initial_sound ran).comesToRest, ?_⟩
  intro settled
  have all := held_all_iff step_sound step_balance (fun _ _ => lost_eq_zero_iff)
    (@initial_sound Params sandBoxes) ran
  rw [settled.held_eq, show (initial Params).held = 0 from rfl, zero_add] at all
  constructor
  · intro delivered
    exact all.mp delivered.once
  · intro kept
    refine ⟨all.mpr kept, ?_⟩
    intro taken rest earlier split before
    subst split
    exact saved_stays (guarded_append kept before) ((run_append before rest).symm.trans ran)

/-- An application that listens to every event. -/
def listening (_ : Int) : Option SandBox :=
  some ⟨some (BitVec.allOnes 64)⟩

def request (eventName : EventName) (params : Nat) : Request Nat :=
  ⟨1, eventName, .behavior, some params⟩

/-- A resource event, an event that is delayed and one that is not, at one millisecond; the
delayed one is sent a millisecond later. -/
def quietLabels : List (Step Nat) :=
  [.pushEvent (request .resourceOverlimit 0) 5, .pushEvent (request .scrollJank 1) 5,
    .pushEvent (request .appCrash 2) 5, .saveOverLimitEvent 5, .resetOverLimitThread, .startSending 6 [1],
    .sendNext, .sendNext, .sendNext]

def quietState : State Nat where
  saved := [⟨1, 5, ⟨.appCrash, .behavior, 2⟩⟩, ⟨1, 5, ⟨.resourceOverlimit, .behavior, 0⟩⟩,
    ⟨1, 6, ⟨.scrollJank, .behavior, 1⟩⟩]
  temp := []
  sendingThread := false
  sending := none
  overLimit := none

theorem quiet_delivered : ComesToRest listening quietState ∧ Delivered listening quietLabels quietState := by
  have ran : run (step listening) (initial Nat) quietLabels = some quietState := rfl
  obtain ⟨rests, exactly⟩ := delivered_iff_kept ran
  exact ⟨rests, (exactly ⟨rfl, rfl⟩).mpr (by decide)⟩

/-- Two resource events, the second of which finds the thread of the first. -/
def busyLabels : List (Step Nat) :=
  [.pushEvent (request .resourceOverlimit 0) 5, .pushEvent (request .resourceOverlimit 1) 6,
    .saveOverLimitEvent 7, .resetOverLimitThread]

/-- An event that is written at the millisecond at which the delayed ones are sent. -/
def sameMillisecondLabels : List (Step Nat) :=
  [.pushEvent (request .scrollJank 0) 5, .pushEvent (request .appCrash 1) 7, .startSending 7 [1],
    .sendNext, .sendNext, .sendNext]

/-- The threads are done and an event is gone. -/
theorem event_lost :
    (∃ final, run (step listening) (initial Nat) busyLabels = some final ∧ Settled final ∧
      ¬ Delivered listening busyLabels final) ∧
    ∃ final, run (step listening) (initial Nat) sameMillisecondLabels = some final ∧ Settled final ∧
      ¬ Delivered listening sameMillisecondLabels final := by
  constructor
  · refine ⟨_, rfl, ⟨rfl, rfl⟩, ?_⟩
    intro delivered
    exact absurd delivered.once (by decide)
  · refine ⟨_, rfl, ⟨rfl, rfl⟩, ?_⟩
    intro delivered
    exact absurd delivered.once (by decide)

/-- Nothing gets into a sandbox that was not pushed, or more often than it was. -/
theorem published_le_pushed (ran : run (step sandBoxes) (initial Params) labels = some final) :
    final.published ≤ total (step sandBoxes) (pushed sandBoxes) (initial Params) labels := by
  have balance := run_balance step_sound step_balance initial_sound ran
  rw [show (initial Params).held = 0 from rfl, zero_add] at balance
  rw [← balance, State.held, add_assoc, add_assoc]
  exact Multiset.le_add_right _ _

theorem published_le_pushed_busy : ∃ final, run (step listening) (initial Nat) busyLabels = some final ∧
    final.published ≤ total (step listening) (pushed listening) (initial Nat) busyLabels :=
  ⟨_, rfl, published_le_pushed rfl⟩

end Hiview.EventPublish
